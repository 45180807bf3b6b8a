/-
Crossover.Exposure — the crossover rule and its return.

The rule is long after a bar at whose close the fast average is above the slow one, short after any
other, and flat on the first bar. `equity` adds up the returns of the bars as the rule holds them,
and `score` is its last value.
-/
import Crossover.Indicator

namespace Crossover

/-- What is held over a bar. -/
inductive Exposure where
  | long
  | short
  | flat
  deriving DecidableEq, Repr

namespace Exposure

/-- By how much the return of a bar counts. -/
def weight : Exposure → Float
  | long => 1.0
  | short => -1.0
  | flat => 0.0

/-- The verdict of two averages: long if both exist and the fast one is above the slow one. -/
def ofAverages : Option Float → Option Float → Exposure
  | some fast, some slow => if slow < fast then long else short
  | _, _ => short

def verdicts (closes : List Float) (fast slow : Nat) : List Exposure :=
  List.zipWith ofAverages (Indicator.movingAverage fast closes)
    (Indicator.movingAverage slow closes)

theorem length_verdicts (closes : List Float) (fast slow : Nat) :
    (verdicts closes fast slow).length = closes.length := by
  simp [verdicts, Indicator.length_movingAverage]

/-- The exposure over each bar: the verdict of the bar before, and flat on the first. -/
def held (closes : List Float) (fast slow : Nat) : List Exposure :=
  Indicator.delay flat (verdicts closes fast slow)

theorem length_held (closes : List Float) (fast slow : Nat) :
    (held closes fast slow).length = closes.length := by
  rw [held, Indicator.length_delay, length_verdicts]

end Exposure

/-- The return of the rule up to each bar, added up without compounding. -/
def equity (closes : List Float) (fast slow : Nat) : List Float :=
  Indicator.runningTotals
    (List.zipWith (fun e r => e.weight * r) (Exposure.held closes fast slow)
      (Indicator.changes closes))

theorem length_equity (closes : List Float) (fast slow : Nat) :
    (equity closes fast slow).length = closes.length := by
  simp [equity, Indicator.length_runningTotals, Exposure.length_held, Indicator.length_changes]

/-- The score of a pair that is none, minus infinity: below every score that is a number. -/
def noScore : Float :=
  Float.ofBits 0xFFF0000000000000

/-- The return of the rule over all bars; `noScore` unless the fast period is below the slow one. -/
def score (closes : List Float) (fast slow : Nat) : Float :=
  if slow ≤ fast then noScore else (equity closes fast slow).getLast?.getD 0.0

end Crossover
