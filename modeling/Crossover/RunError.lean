/-
Crossover.RunError — why a walk forward over a series has no result.
-/
import Crossover.Text.Digits

namespace Crossover

open Text

/-- Which of the two averages a period belongs to. -/
inductive Side where
  | fast
  | slow
  deriving DecidableEq, Repr

def Side.word : Side → String
  | fast => "fast"
  | slow => "slow"

/-- Why a walk forward has no result. -/
inductive RunError where
  /-- A window is empty, or both together are longer than the series. -/
  | tooShort (length train test : Nat)
  | noPeriods (side : Side)
  | badPeriod (side : Side) (period : Nat)
  /-- No window has a pair with a score. -/
  | nothingChosen (windows : Nat)
  | noChoices
  deriving DecidableEq, Repr

def RunError.message : RunError → String
  | tooShort length train test =>
    "Not enough data for the requested windows: " ++ Digits.text length ++
      " prices, need train_window (" ++ Digits.text train ++ ") + test_window (" ++
      Digits.text test ++ ") with both > 0"
  | noPeriods side => "At least one " ++ side.word ++ " period must be provided"
  | badPeriod side period =>
    "Invalid " ++ side.word ++ " period " ++ Digits.text period ++ ": periods must be positive"
  | nothingChosen windows =>
    "Walk-forward run produced no valid windows (" ++ Digits.text windows ++
      " boundaries, all skipped)"
  | noChoices => "Cannot aggregate an empty set of window records"

end Crossover
