/-
Crossover.Proofs.Guarded.Score — scoring a pair with every position looked after.

The definitions of this module do what `score` does, one position at a time: a difference of positions is
none below zero (`minus?`), a sum is none beyond 64 bits (`lengthSum?`), and a stretch of a list is none
unless its bounds are in order and within the list (`stretch?`). An average over no values is none as
well. `score?_eq` says that nothing of this happens to a pair of positive periods: the guarded score is
there, and is the score.

  §1 Positions  — differences, stretches, and lists made element by element.
  §2 Indicators — averages, changes and delays.
  §3 Scores     — the rule and its return.
-/
import Crossover.Exposure
import Crossover.Split

namespace Crossover

open Text Indicator

namespace Guarded

/-! ## §1 Positions -/

/-- The difference of two positions; none below zero. -/
def minus? (a b : Nat) : Option Nat :=
  if b ≤ a then some (a - b) else none

/-- The values from position `start` up to and without `stop`; none unless the bounds are in order and
within the list. -/
def stretch? (xs : List α) (start stop : Nat) : Option (List α) :=
  if start ≤ stop ∧ stop ≤ xs.length then some ((xs.drop start).take (stop - start)) else none

theorem minus?_eq {a b : Nat} (h : b ≤ a) : minus? a b = some (a - b) :=
  if_pos h

theorem stretch?_eq {xs : List α} {start stop : Nat} (hstart : start ≤ stop) (hstop : stop ≤ xs.length) :
    stretch? xs start stop = some ((xs.drop start).take (stop - start)) :=
  if_pos ⟨hstart, hstop⟩

theorem lengthSum?_eq {a b : Nat} (h : a + b ≤ Natural.greatest) : lengthSum? a b = some (a + b) :=
  if_pos h

/-- A list whose elements are all there is there. -/
theorem mapM_eq_some {f : α → Option β} {g : α → β} {xs : List α} (h : ∀ x ∈ xs, f x = some (g x)) :
    xs.mapM f = some (xs.map g) := by
  induction xs with
  | nil => rfl
  | cons x rest ih =>
    have hrest := ih fun y hy => h y (List.mem_cons_of_mem x hy)
    rw [List.mapM_cons, h x List.mem_cons_self, hrest]
    rfl

/-! ## §2 Indicators -/

/-- The mean of the `window` values up to the place `i`, and none where there are fewer. -/
def meanUpTo? (window : Nat) (xs : List Float) (i : Nat) : Option (Option Float) := do
  let next ← lengthSum? i 1
  if next < window then return none
  let start ← minus? next window
  let values ← stretch? xs start next
  return some (total values / Float.ofNat window)

/-- A moving average; none if it averages over no values. -/
def movingAverage? (window : Nat) (xs : List Float) : Option (List (Option Float)) :=
  if window = 0 then none else (List.range xs.length).mapM (meanUpTo? window xs)

/-- Each value of a list with the one after it. -/
def neighbours : List α → List (List α)
  | a :: b :: rest => [a, b] :: neighbours (b :: rest)
  | _ => []

def changes? (xs : List Float) : Option (List Float) :=
  if xs.isEmpty then some []
  else do
    let rest ← (neighbours xs).mapM fun w => do
      let before ← w[0]?
      let after ← w[1]?
      return change before after
    return 0.0 :: rest

def delay? (first : α) (xs : List α) : Option (List α) :=
  if xs.isEmpty then some []
  else do
    let last ← minus? xs.length 1
    let kept ← stretch? xs 0 last
    return first :: kept

/-- A moving average over at least one value takes its stretches within the list. -/
theorem movingAverage?_eq {window : Nat} {xs : List Float} (hwindow : 0 < window)
    (hlength : xs.length ≤ Natural.greatest) :
    movingAverage? window xs = some (movingAverage window xs) := by
  rw [movingAverage?, if_neg (by omega), movingAverage]
  refine mapM_eq_some fun i hi => ?_
  have hplace : i < xs.length := List.mem_range.1 hi
  simp only [meanUpTo?, lengthSum?_eq (show i + 1 ≤ Natural.greatest by omega), Option.bind_eq_bind,
    Option.bind_some]
  by_cases hshort : i + 1 < window
  · rw [if_pos hshort, if_pos (.inr hshort)]
    rfl
  · have hbounds : stretch? xs (i + 1 - window) (i + 1) =
        some ((xs.drop (i + 1 - window)).take window) := by
      rw [stretch?_eq (by omega) (by omega), Nat.sub_sub_self (by omega)]
    rw [if_neg hshort, if_neg (by omega), minus?_eq (by omega)]
    simp only [Option.bind_some, hbounds]
    rfl

example : movingAverage? 0 [1.0] = none := rfl

/-- Every list of neighbours has two values. -/
theorem mapM_neighbours (x : Float) (rest : List Float) :
    ((neighbours (x :: rest)).mapM fun w => do
      let before ← w[0]?
      let after ← w[1]?
      return change before after) = some (List.zipWith change (x :: rest) rest) := by
  induction rest generalizing x with
  | nil => rfl
  | cons y more ih =>
    rw [neighbours, List.mapM_cons, ih y]
    rfl

theorem changes?_eq (xs : List Float) : changes? xs = some (changes xs) := by
  cases xs with
  | nil => rfl
  | cons x rest =>
    rw [changes?, mapM_neighbours]
    rfl

theorem delay?_eq (first : α) (xs : List α) : delay? first xs = some (delay first xs) := by
  cases xs with
  | nil => rfl
  | cons x rest =>
    have hlast : minus? (x :: rest).length 1 = some rest.length := minus?_eq (Nat.le_add_left 1 _)
    have hkept : stretch? (x :: rest) 0 rest.length = some (x :: rest).dropLast := by
      rw [stretch?_eq (Nat.zero_le _) (Nat.le_succ _), List.dropLast_eq_take]
      rfl
    simp only [delay?, hlast, hkept, Option.bind_eq_bind, Option.bind_some]
    rfl

/-! ## §3 Scores -/

def verdicts? (closes : List Float) (fast slow : Nat) : Option (List Exposure) := do
  let fastAverage ← movingAverage? fast closes
  let slowAverage ← movingAverage? slow closes
  return List.zipWith Exposure.ofAverages fastAverage slowAverage

def equity? (closes : List Float) (fast slow : Nat) : Option (List Float) := do
  let verdicts ← verdicts? closes fast slow
  let held ← delay? Exposure.flat verdicts
  let returns ← changes? closes
  return runningTotals (List.zipWith (fun e r => e.weight * r) held returns)

def score? (closes : List Float) (fast slow : Nat) : Option Float :=
  if slow ≤ fast then some noScore
  else do
    let totals ← equity? closes fast slow
    return totals.getLast?.getD 0.0

/-- A pair of positive periods is scored without a position out of place. -/
theorem score?_eq {closes : List Float} {fast slow : Nat} (hfast : 0 < fast) (hslow : 0 < slow)
    (hlength : closes.length ≤ Natural.greatest) :
    score? closes fast slow = some (score closes fast slow) := by
  have hverdicts : verdicts? closes fast slow = some (Exposure.verdicts closes fast slow) := by
    rw [verdicts?, movingAverage?_eq hfast hlength, movingAverage?_eq hslow hlength]
    rfl
  have hequity : equity? closes fast slow = some (equity closes fast slow) := by
    rw [equity?, hverdicts, changes?_eq]
    simp only [delay?_eq, Option.bind_eq_bind, Option.bind_some]
    rfl
  unfold score? score
  split
  · rfl
  · rw [hequity]
    rfl

end Guarded

end Crossover
