/-
Crossover.Indicator — series of numbers derived from a series of numbers.

Each indicator has one value for each input, at the same place, and looks at no later input. Sums
run from left to right. Those of a moving average start from minus zero, which leaves any first
number as it is; running totals start from zero.
-/
namespace Crossover.Indicator

/-! ## 1. Moving averages -/

/-- The sum of a list, from left to right, starting from minus zero. -/
def total (xs : List Float) : Float :=
  xs.foldl (· + ·) (-0.0)

/-- The mean of the last `window` values up to each place, and none where there are fewer. A window
of no values has no mean. -/
def movingAverage (window : Nat) (xs : List Float) : List (Option Float) :=
  (List.range xs.length).map fun i =>
    if window = 0 ∨ i + 1 < window then none
    else some (total ((xs.drop (i + 1 - window)).take window) / Float.ofNat window)

theorem length_movingAverage (window : Nat) (xs : List Float) :
    (movingAverage window xs).length = xs.length := by
  simp [movingAverage]

/-! ## 2. Changes -/

/-- The relative change from one value to the next; zero where it is undefined. -/
def change (before after : Float) : Float :=
  let ratio := (after - before) / before
  if ratio.isNaN then 0.0 else ratio

/-- The relative change at each place from the one before; zero at the first. -/
def changes : List Float → List Float
  | [] => []
  | x :: rest => 0.0 :: List.zipWith change (x :: rest) rest

theorem length_changes (xs : List Float) : (changes xs).length = xs.length := by
  cases xs with
  | nil => rfl
  | cons x rest => simp [changes]

/-! ## 3. Delays and totals -/

/-- The list moved back by one place, with `first` in front and its last value gone. -/
def delay (first : α) : List α → List α
  | [] => []
  | x :: rest => first :: (x :: rest).dropLast

/-- The totals up to each place, on top of `start`. -/
def totalsFrom (start : Float) : List Float → List Float
  | [] => []
  | x :: rest => (start + x) :: totalsFrom (start + x) rest

/-- The total up to each place. -/
def runningTotals (xs : List Float) : List Float :=
  totalsFrom 0.0 xs

theorem length_delay (first : α) (xs : List α) : (delay first xs).length = xs.length := by
  cases xs with
  | nil => rfl
  | cons x rest => simp [delay]

theorem length_totalsFrom (start : Float) (xs : List Float) :
    (totalsFrom start xs).length = xs.length := by
  induction xs generalizing start with
  | nil => rfl
  | cons x rest ih => rw [totalsFrom, List.length_cons, List.length_cons, ih]

theorem length_runningTotals (xs : List Float) : (runningTotals xs).length = xs.length :=
  length_totalsFrom 0.0 xs

/-- The last of some totals adds up everything. -/
theorem getLast?_totalsFrom (start x : Float) (rest : List Float) :
    (totalsFrom start (x :: rest)).getLast? = some ((x :: rest).foldl (· + ·) start) := by
  induction rest generalizing start x with
  | nil => rfl
  | cons y rest ih =>
    rw [totalsFrom, List.getLast?_cons_of_ne_nil (by simp [totalsFrom]), ih]
    rfl

end Crossover.Indicator
