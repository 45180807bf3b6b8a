/-
Crossover.Proofs.Score.Places — what stands at one place of an indicator.

The indicators and the rule are lists as long as the prices. Here is what each of them has at a place, said
with the prices around that place only: an average with the prices up to it, a change with the price before
it, and what is held with the averages one place earlier.
-/
import Crossover.Proofs.Score.Causality

namespace Crossover

/-! ## §1 Indicators -/

namespace Indicator

/-- The mean of the last `window` prices up to a place, if there are as many. -/
def averageAt (window : Nat) (xs : List Float) (i : Nat) : Option Float :=
  if window = 0 ∨ i + 1 < window then none
  else some (total ((xs.drop (i + 1 - window)).take window) / Float.ofNat window)

theorem averageAt_of_lt {window i : Nat} (h : i + 1 < window) (xs : List Float) :
    averageAt window xs i = none := by
  simp [averageAt, h]

@[simp] theorem averageAt_zero (xs : List Float) (i : Nat) : averageAt 0 xs i = none := by
  simp [averageAt]

theorem averageAt_of_le {window i : Nat} (hpos : 0 < window) (h : window ≤ i + 1) (xs : List Float) :
    averageAt window xs i =
      some (total ((xs.drop (i + 1 - window)).take window) / Float.ofNat window) := by
  have hdefined : ¬ (window = 0 ∨ i + 1 < window) := by omega
  simp [averageAt, hdefined]

theorem getElem?_movingAverage (window : Nat) {xs : List Float} {i : Nat} (h : i < xs.length) :
    (movingAverage window xs)[i]? = some (averageAt window xs i) := by
  simp [movingAverage, averageAt, h]

theorem getElem?_changes_zero {xs : List Float} (h : 0 < xs.length) :
    (changes xs)[0]? = some 0.0 := by
  cases xs with
  | nil => simp at h
  | cons x rest => simp [changes]

theorem getElem?_changes_succ (xs : List Float) (i : Nat) :
    (changes xs)[i + 1]? = xs[i]?.bind fun before => xs[i + 1]?.map (change before) := by
  cases xs with
  | nil => simp [changes]
  | cons x rest =>
    simp only [changes, List.getElem?_cons_succ, List.getElem?_zipWith]
    cases (x :: rest)[i]? with
    | none => simp
    | some before => cases rest[i]? <;> simp

theorem getElem?_delay_zero (first : α) {xs : List α} (h : 0 < xs.length) :
    (delay first xs)[0]? = some first := by
  rw [delay_eq, List.getElem?_take_of_lt h, List.getElem?_cons_zero]

end Indicator

/-! ## §2 The rule -/

namespace Exposure

@[simp] theorem ofAverages_none_left (slow : Option Float) : ofAverages none slow = short := by
  simp [ofAverages]

@[simp] theorem ofAverages_none_right (fast : Option Float) : ofAverages fast none = short := by
  cases fast <;> simp [ofAverages]

theorem getElem?_held_zero {closes : List Float} (fast slow : Nat) (h : 0 < closes.length) :
    (held closes fast slow)[0]? = some flat := by
  have hverdicts : 0 < (verdicts closes fast slow).length := by rwa [length_verdicts]
  exact Indicator.getElem?_delay_zero flat hverdicts

/-- What is held over a bar is the verdict of the averages up to the bar before. -/
theorem getElem?_held_succ {closes : List Float} (fast slow : Nat) {i : Nat} (h : i + 1 < closes.length) :
    (held closes fast slow)[i + 1]? =
      some (ofAverages (Indicator.averageAt fast closes i) (Indicator.averageAt slow closes i)) := by
  have hverdicts : i + 1 < (verdicts closes fast slow).length := by rwa [length_verdicts]
  have hi : i < closes.length := by omega
  unfold held
  rw [Indicator.getElem?_delay_succ flat hverdicts, verdicts, List.getElem?_zipWith,
    Indicator.getElem?_movingAverage fast hi, Indicator.getElem?_movingAverage slow hi]

end Exposure

end Crossover
