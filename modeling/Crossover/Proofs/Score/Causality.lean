/-
Crossover.Proofs.Score.Causality — the rule never looks ahead.

A transformation of lists is `Causal` if what comes out up to some place is what comes out of the
list cut off there. Zips and compositions of causal transformations are causal, so each indicator is
looked at once (§2) and the rule is put together from them (§3). Only the exposure knows one place
more than it is told: it is delayed by a bar, so the bar after the cut is already settled
(`getElem?_delay_succ`). A score is the last of the totals, hence any total is the score of the
prices up to its bar (`getElem?_equity`).
-/
import Crossover.Exposure

namespace Crossover

/-! ## §1 Causal transformations -/

/-- Lists that agree at each place before `k` are the same up to there. -/
theorem take_eq_of_agree {a b : List α} {k : Nat} (h : ∀ i < k, a[i]? = b[i]?) :
    a.take k = b.take k := by
  apply List.ext_getElem?
  intro i
  rw [List.getElem?_take, List.getElem?_take]
  split
  · exact h i ‹_›
  · rfl

/-- What comes out up to a place is what comes out of the list up to that place. -/
def Causal (f : List α → List β) : Prop :=
  ∀ (k : Nat) (xs : List α), (f xs).take k = f (xs.take k)

namespace Causal

theorem zipWith {f : List α → List β} {g : List α → List γ} (h : β → γ → δ) (hf : Causal f)
    (hg : Causal g) : Causal fun xs => List.zipWith h (f xs) (g xs) := by
  intro k xs
  rw [List.take_zipWith, hf, hg]

theorem comp {g : List β → List γ} {f : List α → List β} (hg : Causal g) (hf : Causal f) :
    Causal fun xs => g (f xs) := by
  intro k xs
  rw [hg, hf]

/-- Lists that agree up to a place give results that agree up to there. -/
theorem agree {f : List α → List β} (hf : Causal f) {a b : List α} {k : Nat}
    (h : ∀ i < k, a[i]? = b[i]?) : ∀ i < k, (f a)[i]? = (f b)[i]? := by
  intro i hi
  rw [← List.getElem?_take_of_lt hi, hf, take_eq_of_agree h, ← hf, List.getElem?_take_of_lt hi]

end Causal

/-! ## §2 Indicators -/

namespace Indicator

/-- A stretch that ends before a cut is not touched by it. -/
theorem stretch_take {xs : List α} {start size k : Nat} (h : start + size ≤ k) :
    ((xs.take k).drop start).take size = (xs.drop start).take size := by
  rw [List.drop_take, List.take_take, Nat.min_eq_left (by omega)]

theorem causal_movingAverage (window : Nat) : Causal (movingAverage window) := by
  intro k xs
  unfold movingAverage
  rw [← List.map_take, List.take_range, List.length_take]
  refine List.map_congr_left fun i hi => ?_
  have hik : i < k := by
    have := List.mem_range.1 hi
    omega
  by_cases hnone : window = 0 ∨ i + 1 < window
  · rw [if_pos hnone, if_pos hnone]
  · -- The stretch of the mean at place `i` ends at `i + 1`, and the cut is not before that.
    rw [if_neg hnone, if_neg hnone, stretch_take (by omega)]

/-- A change needs the price before it, which a cut leaves in place. -/
theorem zipWith_change_take (x : Float) (rest : List Float) (k : Nat) :
    List.zipWith change ((x :: rest).take k) (rest.take k) =
      List.zipWith change (x :: rest.take k) (rest.take k) := by
  induction k generalizing x rest with
  | zero => rfl
  | succ k ih =>
    cases rest with
    | nil => rfl
    | cons y rest =>
      rw [List.take_succ_cons, List.take_succ_cons, List.zipWith_cons_cons, ih,
        List.zipWith_cons_cons]

theorem causal_changes : Causal changes := by
  intro k xs
  cases xs with
  | nil => simp [changes]
  | cons x rest =>
    cases k with
    | zero => rfl
    | succ k =>
      rw [List.take_succ_cons, changes, changes, List.take_succ_cons, List.take_zipWith,
        zipWith_change_take]

/-- A delayed list is the list with a value in front, cut to its old length. -/
theorem delay_eq (first : α) (xs : List α) : delay first xs = (first :: xs).take xs.length := by
  cases xs with
  | nil => rfl
  | cons x rest =>
    rw [delay, List.length_cons, List.take_succ_cons, List.dropLast_eq_take, List.length_cons,
      Nat.add_sub_cancel]

theorem causal_delay (first : α) : Causal (delay first) := by
  intro k xs
  rw [delay_eq, delay_eq, List.length_take, ← List.take_succ_cons, List.take_take, List.take_take,
    Nat.min_eq_left (show min k xs.length ≤ k + 1 by omega)]

/-- Behind the first place a delayed list has the value of the place before. -/
theorem getElem?_delay_succ (first : α) {xs : List α} {i : Nat} (h : i + 1 < xs.length) :
    (delay first xs)[i + 1]? = xs[i]? := by
  rw [delay_eq, List.getElem?_take_of_lt h, List.getElem?_cons_succ]

theorem take_totalsFrom (start : Float) (k : Nat) (xs : List Float) :
    (totalsFrom start xs).take k = totalsFrom start (xs.take k) := by
  -- One step of the cut goes with one step of the sum, whose total is the next `start`.
  induction k generalizing start xs with
  | zero => rfl
  | succ k ih =>
    cases xs with
    | nil => rfl
    | cons x rest =>
      rw [totalsFrom, List.take_succ_cons, ih, List.take_succ_cons, totalsFrom]

theorem causal_runningTotals : Causal runningTotals :=
  fun k xs => take_totalsFrom 0.0 k xs

end Indicator

/-! ## §3 The rule -/

section Rule

variable (fast slow : Nat)

theorem causal_verdicts : Causal fun closes => Exposure.verdicts closes fast slow :=
  (Indicator.causal_movingAverage fast).zipWith Exposure.ofAverages
    (Indicator.causal_movingAverage slow)

theorem causal_held : Causal fun closes => Exposure.held closes fast slow :=
  (Indicator.causal_delay Exposure.flat).comp (causal_verdicts fast slow)

theorem causal_equity : Causal fun closes => equity closes fast slow :=
  Indicator.causal_runningTotals.comp
    ((causal_held fast slow).zipWith (fun e r => e.weight * r) Indicator.causal_changes)

/-- What is held over a bar is settled by the prices before it. -/
theorem held_agree {a b : List Float} {k : Nat} (h : ∀ i < k, a[i]? = b[i]?) {i : Nat} (hi : i ≤ k)
    (ha : i < a.length) (hb : i < b.length) :
    (Exposure.held a fast slow)[i]? = (Exposure.held b fast slow)[i]? := by
  unfold Exposure.held
  rw [← Exposure.length_verdicts a fast slow] at ha
  rw [← Exposure.length_verdicts b fast slow] at hb
  cases i with
  | zero =>
    -- Nothing comes before the first bar, which is flat in any case.
    obtain ⟨v, vs, hv⟩ := List.exists_cons_of_length_pos ha
    obtain ⟨w, ws, hw⟩ := List.exists_cons_of_length_pos hb
    rw [hv, hw]
    rfl
  | succ i =>
    rw [Indicator.getElem?_delay_succ _ ha, Indicator.getElem?_delay_succ _ hb]
    exact (causal_verdicts fast slow).agree h i hi

/-- The total up to a bar is the score of the prices up to that bar. -/
theorem getElem?_equity {fast slow : Nat} (hvalid : fast < slow) {closes : List Float} {k : Nat}
    (hpos : 0 < k) (hk : k ≤ closes.length) :
    (equity closes fast slow)[k - 1]? = some (score (closes.take k) fast slow) := by
  have hcut : (equity closes fast slow).take k = equity (closes.take k) fast slow :=
    causal_equity fast slow k closes
  have hlast : k - 1 < (equity closes fast slow).length := by
    rw [length_equity]
    omega
  rw [score, if_neg (Nat.not_le_of_lt hvalid), ← hcut, List.getLast?_take, if_neg (by omega),
    List.getElem?_eq_getElem hlast]
  rfl

end Rule

/-- **No look-ahead.** Of prices that agree up to a place, the verdicts and the totals agree up to it,
and what is held agrees one bar further, as far as there are bars. So the totals of a valid pair are
its scores: each is the score of the prices up to its bar. -/
theorem rule_never_looks_ahead (fast slow : Nat) :
    (∀ (a b : List Float) (k : Nat), (∀ i < k, a[i]? = b[i]?) →
      (∀ i < k, (Exposure.verdicts a fast slow)[i]? = (Exposure.verdicts b fast slow)[i]?) ∧
        (∀ i ≤ k, i < a.length → i < b.length →
          (Exposure.held a fast slow)[i]? = (Exposure.held b fast slow)[i]?) ∧
        ∀ i < k, (equity a fast slow)[i]? = (equity b fast slow)[i]?) ∧
      (fast < slow → ∀ (closes : List Float) (k : Nat), 0 < k → k ≤ closes.length →
        (equity closes fast slow)[k - 1]? = some (score (closes.take k) fast slow)) := by
  constructor
  · intro a b k h
    refine ⟨(causal_verdicts fast slow).agree h, fun i hi ha hb => ?_,
      (causal_equity fast slow).agree h⟩
    exact held_agree fast slow h hi ha hb
  · intro hvalid closes k hpos hk
    exact getElem?_equity hvalid hpos hk

/-- Two courses that part after three prices: what is held over the fourth bar is the same in both. -/
theorem rule_never_looks_ahead_of_fork :
    (∀ i < 3, ([1.0, 2.0, 4.0, 3.0] : List Float)[i]? = [1.0, 2.0, 4.0, 100.0, 5.0][i]?) ∧
      (Exposure.held [1.0, 2.0, 4.0, 3.0] 1 2)[3]? =
        (Exposure.held [1.0, 2.0, 4.0, 100.0, 5.0] 1 2)[3]? ∧
      (equity [1.0, 2.0, 4.0, 3.0] 1 2)[2]? = (equity [1.0, 2.0, 4.0, 100.0, 5.0] 1 2)[2]? ∧
      (equity [1.0, 2.0, 4.0, 100.0, 5.0] 1 2)[2]? = some (score [1.0, 2.0, 4.0] 1 2) := by
  have hagree :
      ∀ i < 3, ([1.0, 2.0, 4.0, 3.0] : List Float)[i]? = [1.0, 2.0, 4.0, 100.0, 5.0][i]? := by
    decide
  obtain ⟨hcausal, hscore⟩ := rule_never_looks_ahead 1 2
  obtain ⟨-, hheld, htotals⟩ := hcausal _ _ 3 hagree
  refine ⟨hagree, ?_, ?_, ?_⟩
  · exact hheld 3 (by decide) (by decide) (by decide)
  · exact htotals 2 (by decide)
  · exact hscore (by decide) [1.0, 2.0, 4.0, 100.0, 5.0] 3 (by decide) (by decide)

end Crossover
