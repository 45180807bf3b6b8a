/-
Crossover.Proofs.Score.Solvency — when a valid pair has a score above `noScore`.

The score of a pair is a running total of the gains of its bars, and a gain may be infinite: after a
price of zero, or where a change or the total is too large for a double. Once a total is minus
infinity, or an infinite gain and an infinite loss have met, no later gain mends it. `Solvent` says that
neither ever happens, and `noScore_lt_score_iff` that this is what it takes for a score above `noScore`.

  §1 Scores    — `noScore` among the doubles.
  §2 Bars      — what is held over a bar, and when it is ruinous.
  §3 Totals    — the induction over the gains: every total so far is above minus infinity.
  §4 Solvency  — scores, the search and the line of the `score` command.
-/
import Crossover.Command.Run
import Crossover.Proofs.Disk.Attempt
import Crossover.Proofs.Numeric.Double
import Crossover.Proofs.Sweep.Search

namespace Crossover

open Double Float.Model UnpackedFloat

/-! ## §1 Scores -/

/-- Plus infinity. -/
def top : Float :=
  Float.ofBits 0x7FF0000000000000

theorem parts_noScore : parts noScore = .infinity .negative := rfl

theorem parts_top : parts top = .infinity .positive := rfl

theorem noScore_lt_iff (x : Float) : noScore < x ↔ isAbove (parts x) = true := by
  have hlt : noScore < x ↔ ((parts noScore).compare (parts x) == some .lt) = true := by
    show decide (((parts noScore).compare (parts x) == some .lt) = true) = true ↔ _
    rw [decide_eq_true_iff]
  rw [hlt, parts_noScore]
  cases parts x with
  | infinity s => cases s <;> decide
  | notANumber => decide
  | zero s => simp [UnpackedFloat.compare, isAbove]
  | finite s m e hm => simp [UnpackedFloat.compare, isAbove]

theorem beq_noScore_iff (x : Float) : (x == noScore) = true ↔ parts x = .infinity .negative := by
  show ((parts x).compare (parts noScore) == some .eq) = true ↔ _
  rw [parts_noScore]
  cases parts x with
  | infinity s =>
    cases s with
    | negative => exact iff_of_true rfl rfl
    | positive => exact iff_of_false (by decide) nofun
  | notANumber => simp [UnpackedFloat.compare]
  | zero s => simp [UnpackedFloat.compare]
  | finite s m e hm => simp [UnpackedFloat.compare]

theorem beq_top_iff (x : Float) : (x == top) = true ↔ parts x = .infinity .positive := by
  show ((parts x).compare (parts top) == some .eq) = true ↔ _
  rw [parts_top]
  cases parts x with
  | infinity s =>
    cases s with
    | positive => exact iff_of_true rfl rfl
    | negative => exact iff_of_false (by decide) nofun
  | notANumber => simp [UnpackedFloat.compare]
  | zero s => simp [UnpackedFloat.compare]
  | finite s m e hm => simp [UnpackedFloat.compare]

theorem isNaN_iff (x : Float) : x.isNaN = true ↔ parts x = .notANumber := by
  show (parts x).isNaN = true ↔ _
  cases parts x <;> simp [UnpackedFloat.isNaN]

/-- What is not above `noScore` is `noScore` or no number at all. -/
theorem not_noScore_lt_iff (x : Float) :
    ¬ noScore < x ↔ (x == noScore) = true ∨ x.isNaN = true := by
  rw [noScore_lt_iff, beq_noScore_iff, isNaN_iff]
  cases parts x with
  | infinity s => cases s <;> simp [isAbove]
  | notANumber => simp [isAbove]
  | zero s => simp [isAbove]
  | finite s m e hm => simp [isAbove]

/-! ## §2 Bars -/

/-- The bars of a series as the rule goes through them: what is held, and the change. -/
def bars (closes : List Float) (fast slow : Nat) : List (Exposure × Float) :=
  (Exposure.held closes fast slow).zip (Indicator.changes closes)

/-- What a bar adds to the total. -/
def gain (bar : Exposure × Float) : Float :=
  bar.1.weight * bar.2

/-- Whether a bar takes everything: a change of minus infinity while long, of plus infinity while
short. -/
def isRuinous : Exposure × Float → Bool
  | (.long, r) => r == noScore
  | (.short, r) => r == top
  | (.flat, _) => false

theorem change_not_nan (before after : Float) : (Indicator.change before after).isNaN = false := by
  unfold Indicator.change
  dsimp only
  split
  · rfl
  · rename_i h
    exact Bool.eq_false_iff.2 h

theorem verdict_ne_flat {closes : List Float} {fast slow : Nat} {e : Exposure}
    (h : e ∈ Exposure.verdicts closes fast slow) : e ≠ .flat := by
  unfold Exposure.verdicts at h
  rw [← List.map_uncurry_zip_eq_zipWith] at h
  obtain ⟨⟨a, b⟩, -, rfl⟩ := List.mem_map.1 h
  intro hflat
  cases a with
  | none => cases hflat
  | some f =>
    cases b with
    | none => cases hflat
    | some l =>
      simp only [Function.uncurry_apply_pair, Exposure.ofAverages] at hflat
      split at hflat <;> cases hflat

/-- The first bar is flat and does not change; every other one is long or short. -/
theorem bars_cons (x : Float) (rest : List Float) (fast slow : Nat) :
    bars (x :: rest) fast slow =
      (.flat, 0.0) :: (Exposure.verdicts (x :: rest) fast slow).dropLast.zip
        (List.zipWith Indicator.change (x :: rest) rest) := by
  unfold bars Exposure.held
  have hlength := Exposure.length_verdicts (x :: rest) fast slow
  cases hv : Exposure.verdicts (x :: rest) fast slow with
  | nil => rw [hv] at hlength; cases hlength
  | cons v vs => rfl

/-- The change of a bar is a number or infinite, and a bar that is held flat has none. -/
theorem mem_bars {closes : List Float} {fast slow : Nat} {bar : Exposure × Float}
    (h : bar ∈ bars closes fast slow) :
    bar = (.flat, 0.0) ∨ bar.1 ≠ .flat ∧ bar.2.isNaN = false := by
  cases closes with
  | nil => cases h
  | cons x rest =>
    rw [bars_cons] at h
    rcases List.mem_cons.1 h with rfl | hlater
    · exact .inl rfl
    · obtain ⟨hheld, hchange⟩ := List.of_mem_zip (show (bar.1, bar.2) ∈ _ from hlater)
      rw [← List.map_uncurry_zip_eq_zipWith] at hchange
      obtain ⟨⟨before, after⟩, -, heq⟩ := List.mem_map.1 hchange
      refine .inr ⟨verdict_ne_flat (List.dropLast_subset _ hheld), ?_⟩
      rw [← heq]
      exact change_not_nan before after

/-- With a sign in front, only the infinity of the other sign is not above minus infinity. -/
theorem isAbove_unit_mul_iff (s : Sign) {r : Float} (h : parts r ≠ .notANumber) :
    isAbove (parts (unit s * r)) = true ↔ parts r ≠ .infinity (.negative * s) := by
  cases hr : parts r with
  | notANumber => exact absurd hr h
  | infinity t =>
    rw [unit_mul_infinity s t hr]
    cases s with
    | positive =>
      cases t with
      | positive => exact ⟨fun _ => nofun, fun _ => rfl⟩
      | negative => exact ⟨nofun, fun hne => absurd rfl hne⟩
    | negative =>
      cases t with
      | positive => exact ⟨nofun, fun hne => absurd rfl hne⟩
      | negative => exact ⟨fun _ => nofun, fun _ => rfl⟩
  | zero t =>
    have hf := @unit_mul_finite s r (by rw [hr]; rfl)
    simp [isAbove_of_isFinite hf]
  | finite t m e hm =>
    have hf := @unit_mul_finite s r (by rw [hr]; rfl)
    simp [isAbove_of_isFinite hf]

/-- What a bar adds is above minus infinity unless the bar is ruinous. -/
theorem isAbove_gain_iff {closes : List Float} {fast slow : Nat} {bar : Exposure × Float}
    (h : bar ∈ bars closes fast slow) :
    isAbove (parts (gain bar)) = true ↔ isRuinous bar = false := by
  rcases mem_bars h with rfl | ⟨hflat, hnumber⟩
  · exact ⟨fun _ => rfl, fun _ => rfl⟩
  · obtain ⟨e, r⟩ := bar
    have hnan : parts r ≠ .notANumber := fun hn => by
      rw [(isNaN_iff r).2 hn] at hnumber
      cases hnumber
    cases e with
    | flat => exact absurd rfl hflat
    | long =>
      have hruin : isRuinous (.long, r) = false ↔ parts r ≠ .infinity .negative :=
        Bool.eq_false_iff.trans (not_congr (beq_noScore_iff r))
      exact (isAbove_unit_mul_iff .positive hnan).trans hruin.symm
    | short =>
      have hruin : isRuinous (.short, r) = false ↔ parts r ≠ .infinity .positive :=
        Bool.eq_false_iff.trans (not_congr (beq_top_iff r))
      exact (isAbove_unit_mul_iff .negative hnan).trans hruin.symm

/-! ## §3 Totals -/

/-- A total is above minus infinity exactly when nothing that went into it, and no total on the way, is
minus infinity or no number. -/
theorem isAbove_foldl_iff (start : Float) (gains : List Float) :
    isAbove (parts (gains.foldl (· + ·) start)) = true ↔
      isAbove (parts start) = true ∧ (∀ g ∈ gains, isAbove (parts g) = true) ∧
        ∀ x ∈ Indicator.totalsFrom start gains, (x == noScore) = false := by
  -- The gains are added from the left, so the next total takes the place of `start`.
  induction gains generalizing start with
  | nil => simp [Indicator.totalsFrom]
  | cons g rest ih =>
    have hstep : isAbove (parts (start + g)) = true ↔
        isAbove (parts start) = true ∧ isAbove (parts g) = true ∧
          ((start + g) == noScore) = false := by
      rw [Bool.eq_false_iff, ne_eq, beq_noScore_iff]
      constructor
      · intro h
        obtain ⟨hstart, hg⟩ := add_split h
        exact ⟨hstart, hg, fun hlost => by rw [hlost] at h; cases h⟩
      · rintro ⟨hstart, hg, hkept⟩
        exact isAbove_of_ne (add_ne_nan hstart hg) hkept
    rw [List.foldl_cons, ih, hstep, Indicator.totalsFrom]
    simp only [List.forall_mem_cons]
    constructor
    · rintro ⟨⟨hstart, hg, hkept⟩, hgains, htotals⟩
      exact ⟨hstart, ⟨hg, hgains⟩, hkept, htotals⟩
    · rintro ⟨hstart, ⟨hg, hgains⟩, hkept, htotals⟩
      exact ⟨⟨hstart, hg, hkept⟩, hgains, htotals⟩

/-! ## §4 Solvency -/

/-- No bar takes everything, and no total on the way is minus infinity. -/
structure Solvent (closes : List Float) (fast slow : Nat) : Prop where
  bars : ∀ bar ∈ bars closes fast slow, isRuinous bar = false
  totals : ∀ x ∈ equity closes fast slow, (x == noScore) = false

instance (closes : List Float) (fast slow : Nat) : Decidable (Solvent closes fast slow) :=
  decidable_of_iff
    ((∀ bar ∈ bars closes fast slow, isRuinous bar = false) ∧
      ∀ x ∈ equity closes fast slow, (x == noScore) = false)
    ⟨fun h => ⟨h.1, h.2⟩, fun h => ⟨h.bars, h.totals⟩⟩

theorem equity_eq (closes : List Float) (fast slow : Nat) :
    equity closes fast slow = Indicator.totalsFrom 0.0 ((bars closes fast slow).map gain) := by
  unfold equity Indicator.runningTotals bars
  rw [← List.map_uncurry_zip_eq_zipWith]
  rfl

/-- The score of a valid pair adds up what its bars add. -/
theorem score_eq_foldl {fast slow : Nat} (h : fast < slow) (closes : List Float) :
    score closes fast slow = ((bars closes fast slow).map gain).foldl (· + ·) 0.0 := by
  rw [score, if_neg (Nat.not_le_of_lt h), equity_eq]
  cases (bars closes fast slow).map gain with
  | nil => rfl
  | cons g rest => rw [Indicator.getLast?_totalsFrom, Option.getD_some]

/-- A valid pair has a score above `noScore` exactly when it stays solvent. -/
theorem noScore_lt_score_iff {fast slow : Nat} (h : fast < slow) (closes : List Float) :
    noScore < score closes fast slow ↔ Solvent closes fast slow := by
  rw [noScore_lt_iff, score_eq_foldl h, isAbove_foldl_iff, ← equity_eq]
  constructor
  · rintro ⟨-, hgains, htotals⟩
    refine ⟨fun bar hbar => ?_, htotals⟩
    exact (isAbove_gain_iff hbar).1 (hgains _ (List.mem_map_of_mem hbar))
  · intro hsolvent
    refine ⟨rfl, fun g hg => ?_, hsolvent.totals⟩
    obtain ⟨bar, hbar, rfl⟩ := List.mem_map.1 hg
    exact (isAbove_gain_iff hbar).2 (hsolvent.bars bar hbar)

/-- The search finds nothing exactly when no pair of the sweep that is valid stays solvent. -/
theorem winner?_eq_none_iff_solvent (s : Sweep) (closes : List Float) :
    s.winner? closes = none ↔ ∀ f ∈ s.fast, ∀ l ∈ s.slow, f < l → ¬ Solvent closes f l := by
  rw [winner?_eq_none_iff]
  constructor
  · intro h f hf l hl hlt hsolvent
    exact h ⟨f, l⟩ ((s.mem_candidates _).2 ⟨hf, hl, hlt⟩) ((noScore_lt_score_iff hlt closes).2 hsolvent)
  · intro h p hp hscore
    obtain ⟨hf, hl, hlt⟩ := (s.mem_candidates p).1 hp
    exact h _ hf _ hl hlt ((noScore_lt_score_iff hlt closes).1 hscore)

/-- A rise from zero is infinite. -/
theorem parts_change_from_zero {y : Float} (h : 0.0 < y) :
    parts (Indicator.change 0.0 y) = .infinity .positive := by
  have hzero : parts 0.0 = .zero .positive := rfl
  have hpositive : ((UnpackedFloat.zero .positive).compare (parts y) == some .lt) = true := by
    rw [← hzero]
    exact of_decide_eq_true h
  have hratio : parts ((y - 0.0) / 0.0) = .infinity .positive := by
    rw [parts_div, parts_sub, hzero]
    cases hy : parts y with
    | notANumber => rw [hy] at hpositive; cases hpositive
    | zero s => rw [hy] at hpositive; cases hpositive
    | infinity s =>
      cases s with
      | positive => rfl
      | negative => rw [hy] at hpositive; cases hpositive
    | finite s m e hm =>
      have hstored : stored (.finite s m e hm) = .finite s m e hm := by
        rw [← hy, stored_parts]
      cases s with
      | positive =>
        show stored (div .binary64 (stored (.finite .positive m e hm)) (.zero .positive)) = _
        rw [hstored]
        exact stored_infinity .positive
      | negative => rw [hy] at hpositive; cases hpositive
  have hnumber : ((y - 0.0) / 0.0).isNaN = false := by
    rw [Bool.eq_false_iff, ne_eq, isNaN_iff, hratio]
    nofun
  unfold Indicator.change
  dsimp only
  rw [hnumber]
  exact hratio

/-- At the close of the first bar no slow average is there yet. -/
theorem verdicts_cons {fast slow : Nat} (h : fast < slow) (x : Float) (rest : List Float) :
    ∃ later, Exposure.verdicts (x :: rest) fast slow = .short :: later := by
  unfold Exposure.verdicts Indicator.movingAverage
  rw [List.length_cons, List.range_succ_eq_map, List.map_cons, List.map_cons,
    List.zipWith_cons_cons]
  refine ⟨_, congrArg (· :: _) ?_⟩
  by_cases hslow : 0 + 1 < slow
  · rw [if_pos (show slow = 0 ∨ 0 + 1 < slow from .inr hslow)]
    split <;> rfl
  · rw [if_pos (show fast = 0 ∨ 0 + 1 < fast by omega)]
    rfl

/-- A rise from a first price of zero ruins every valid pair. -/
theorem not_solvent_from_zero {y : Float} (hy : 0.0 < y) (rest : List Float) {fast slow : Nat}
    (h : fast < slow) : ¬ Solvent (0.0 :: y :: rest) fast slow := by
  intro hsolvent
  have hmem : (.short, Indicator.change 0.0 y) ∈ bars (0.0 :: y :: rest) fast slow := by
    obtain ⟨later, hlater⟩ := verdicts_cons h 0.0 (y :: rest)
    have hlength := Exposure.length_verdicts (0.0 :: y :: rest) fast slow
    rw [bars_cons, hlater]
    rw [hlater] at hlength
    cases later with
    | nil => cases hlength
    | cons second others => exact List.mem_cons_of_mem _ List.mem_cons_self
  have hruin := hsolvent.bars _ hmem
  rw [show isRuinous (.short, Indicator.change 0.0 y) = true from
    (beq_top_iff _).2 (parts_change_from_zero hy)] at hruin
  cases hruin

/-- Where the first price is zero and the second is above it, no search finds anything. -/
theorem winner?_from_zero {y : Float} (hy : 0.0 < y) (rest : List Float) (s : Sweep) :
    s.winner? (0.0 :: y :: rest) = none :=
  (winner?_eq_none_iff_solvent s _).2 fun _ _ _ _ hlt => not_solvent_from_zero hy rest hlt

/-- The line by which the `score` command says that a pair is none. -/
def invalidLine (pair : Pair) : String :=
  "fast=" ++ Text.Digits.text pair.fast ++ " slow=" ++ Text.Digits.text pair.slow ++
    ": invalid pair (fast must be below slow)"

theorem scoreLine_eq_invalidLine_iff (pair : Pair) (series : Series) :
    Command.scoreLine pair series = invalidLine pair ↔
      (pair.score series.closes == noScore) = true := by
  unfold Command.scoreLine invalidLine
  dsimp only
  split
  · simp [*]
  · rename_i hscore
    refine ⟨fun hline => ?_, fun h => absurd h hscore⟩
    have := congrArg String.toList hline
    simp [String.toList_append] at this

/-- A pair is said to be none if it is, or if it ends at minus infinity. -/
theorem score_eq_noScore_iff (pair : Pair) (closes : List Float) :
    (pair.score closes == noScore) = true ↔ pair.slow ≤ pair.fast ∨
      ¬ Solvent closes pair.fast pair.slow ∧ (pair.score closes).isNaN = false := by
  by_cases hvalid : pair.slow ≤ pair.fast
  · refine iff_of_true ?_ (.inl hvalid)
    rw [Pair.score, score, if_pos hvalid]
    decide
  · have hlt := Nat.lt_of_not_le hvalid
    rw [← noScore_lt_score_iff hlt closes, ← Pair.score, not_noScore_lt_iff]
    simp only [hvalid, false_or]
    constructor
    · intro hlost
      refine ⟨.inl hlost, Bool.eq_false_iff.2 fun hnan => ?_⟩
      rw [beq_noScore_iff, (isNaN_iff _).1 hnan] at hlost
      cases hlost
    · rintro ⟨hlost | hnan, hnumber⟩
      · exact hlost
      · rw [hnan] at hnumber
        cases hnumber

/-- The `score` command prints the line of its pair and leaves the disk as it is. -/
theorem score_on {data : Path} {t u : FileTree} {series : Series} (pair : Pair)
    (h : (Series.load data).run.on t = (.ok series, u)) :
    (Command.score data pair).run.on t = (.ok [Command.scoreLine pair series], u) := by
  have hload : (ExceptT.adapt (Command.Failure.ofLoad data) (Series.load data)).run.on t =
      (.ok series, u) := by
    rw [DiskAction.run_adapt, h]
    rfl
  exact DiskAction.run_bind_ok hload _

/-- **When a pair has a score.** A valid pair has a score above `noScore` exactly when it stays solvent.
So the search finds nothing exactly when no valid pair of the sweep stays solvent, and the `score`
command takes a pair for none when it is, but also when it ends at minus infinity. -/
theorem score_above_noScore_exactly (closes : List Float) :
    (∀ fast slow : Nat, fast < slow →
      (noScore < score closes fast slow ↔ Solvent closes fast slow)) ∧
    (∀ s : Sweep,
      s.winner? closes = none ↔ ∀ f ∈ s.fast, ∀ l ∈ s.slow, f < l → ¬ Solvent closes f l) ∧
    ∀ (data : Path) (pair : Pair) (t u : FileTree) (series : Series),
      (Series.load data).run.on t = (.ok series, u) → series.closes = closes →
        ∃ line, (Command.score data pair).run.on t = (.ok [line], u) ∧
          (line = invalidLine pair ↔ pair.slow ≤ pair.fast ∨
            ¬ Solvent closes pair.fast pair.slow ∧ (pair.score closes).isNaN = false) := by
  refine ⟨fun fast slow h => noScore_lt_score_iff h closes,
    fun s => winner?_eq_none_iff_solvent s closes, fun data pair t u series hload hcloses => ?_⟩
  subst hcloses
  refine ⟨Command.scoreLine pair series, score_on pair hload, ?_⟩
  rw [scoreLine_eq_invalidLine_iff]
  exact score_eq_noScore_iff pair series.closes

/-- A disk with a file of prices that double. -/
def doubling : FileTree :=
  ⟨[(["a.csv"], .file "close\n1\n2\n4\n")]⟩

/-- Prices that double, gone through with a fast period of one and a slow one of two. -/
theorem score_above_noScore_of_doubling :
    noScore < score [1.0, 2.0, 4.0] 1 2 ∧
      Sweep.winner? ⟨[1], [2]⟩ [1.0, 2.0, 4.0] ≠ none ∧
      ∃ line, (Command.score ⟨"a.csv"⟩ ⟨1, 2⟩).run.on doubling = (.ok [line], doubling) ∧
        line ≠ invalidLine ⟨1, 2⟩ := by
  have hsolvent : Solvent [1.0, 2.0, 4.0] 1 2 := by decide
  obtain ⟨hscore, hsearch, hcommand⟩ := score_above_noScore_exactly [1.0, 2.0, 4.0]
  refine ⟨(hscore 1 2 (by decide)).2 hsolvent, fun hnone => ?_, ?_⟩
  · exact (hsearch ⟨[1], [2]⟩).1 hnone 1 (by decide) 2 (by decide) (by decide) hsolvent
  · have hload : (Series.load ⟨"a.csv"⟩).run.on doubling =
        (.ok ⟨[1.0, 2.0, 4.0], none, by simp, by simp, by simp⟩, doubling) := rfl
    obtain ⟨line, hrun, hline⟩ := hcommand _ ⟨1, 2⟩ _ _ _ hload rfl
    refine ⟨line, hrun, fun hinvalid => ?_⟩
    rcases hline.1 hinvalid with hbad | ⟨hlost, -⟩
    · exact absurd hbad (by decide)
    · exact hlost hsolvent

/-- A disk with a file of prices that rise from zero. -/
def risingFromZero : FileTree :=
  ⟨[(["a.csv"], .file "close\n0\n5\n")]⟩

/-- A price of zero ruins a valid pair: its score is not above `noScore`, the search finds nothing, and
the `score` command says that the pair is none. -/
theorem score_lost_from_zero :
    ([0.0, 5.0].all Float.isFinite = true ∧ 1 < 2) ∧
      ¬ noScore < score [0.0, 5.0] 1 2 ∧
      (Sweep.winner? ⟨[1], [2]⟩ [0.0, 5.0]).isNone = true ∧
      (Command.score ⟨"a.csv"⟩ ⟨1, 2⟩).run.on risingFromZero =
        (.ok ["fast=1 slow=2: invalid pair (fast must be below slow)"], risingFromZero) := by
  refine ⟨by decide, by decide, by decide, ?_⟩
  have hload : (Series.load ⟨"a.csv"⟩).run.on risingFromZero =
      (.ok ⟨[0.0, 5.0], none, by simp, by simp, by simp⟩, risingFromZero) := rfl
  have htext : invalidLine ⟨1, 2⟩ = "fast=1 slow=2: invalid pair (fast must be below slow)" := by cbv
  rw [score_on ⟨1, 2⟩ hload, (scoreLine_eq_invalidLine_iff _ _).2 (by decide), htext]

end Crossover
