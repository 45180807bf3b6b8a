/-
Crossover.Outcome — a walk forward and what it recommends.
-/
import Crossover.Notice
import Crossover.Tally

namespace Crossover

open Text Numeric

/-! ## 1. Outcomes -/

/-- The mean of a list, added up from zero; zero for an empty one. -/
def meanScore (xs : List Float) : Float :=
  if xs.isEmpty then 0.0 else xs.foldl (· + ·) 0.0 / Float.ofNat xs.length

/-- The choices of a walk and the pair recommended on their account. -/
structure Outcome where
  choices : List Choice
  selection : Pair
  train : Nat
  test : Nat
  /-- The number of windows, skipped ones included. -/
  windows : Nat

namespace Outcome

/-- The mean score in sample. -/
def meanTrainScore (o : Outcome) : Float :=
  meanScore (o.choices.map Choice.trainScore)

/-- The mean score out of sample. -/
def meanTestScore (o : Outcome) : Float :=
  meanScore (o.choices.map Choice.testScore)

/-- The number of windows that chose the selection. -/
def frequency (o : Outcome) : Nat :=
  (o.choices.filter fun c => c.pair = o.selection).length

/-- The number of windows that chose nothing. -/
def skipped (o : Outcome) : Nat :=
  o.windows - o.choices.length

def tallies (o : Outcome) : List Tally :=
  Crossover.tallies o.choices

def summary (o : Outcome) : String :=
  "Walk-Forward Results: " ++ Digits.text o.choices.length ++ " windows (" ++
    Digits.text o.skipped ++ " skipped)\nAvg Train Score: " ++
    Notice.scoreText o.meanTrainScore ++ "\nAvg Test Score: " ++
    Notice.scoreText o.meanTestScore ++ "\nSelected: " ++ o.selection.text ++ " (chosen in " ++
    Digits.text o.frequency ++ " windows)"

end Outcome

/-! ## 2. Optimizing -/

/-- The lengths of both stretches of a window and the periods to try. -/
structure Optimizer where
  train : Nat
  test : Nat
  sweep : Sweep
  deriving DecidableEq, Repr

namespace Optimizer

/-- The outcome of a walk: an error if no window chose a pair. -/
def conclude (o : Optimizer) (w : Walk) : Except RunError Outcome :=
  if w.choices.isEmpty then .error (.nothingChosen w.trials.length)
  else do
    let selection ← recommend w.choices
    return ⟨w.choices, selection, o.train, o.test, w.trials.length⟩

/-- Walks forward over a series and recommends a pair. -/
def optimize (o : Optimizer) (series : Series) : Except RunError Outcome := do
  let walk ← Walk.across series o.train o.test o.sweep
  o.conclude walk

/-- The notices before the walk. -/
def opening (o : Optimizer) : List Notice :=
  .candidates o.sweep.candidates.length o.sweep.size ::
    if o.sweep.isDegenerate then [.degenerate] else []

def notices (o : Optimizer) (series : Series) : List Notice :=
  match Walk.across series o.train o.test o.sweep with
  | .error _ => o.opening
  | .ok walk =>
    o.opening ++ walk.notices ++
      match o.conclude walk with
      | .error _ => []
      | .ok outcome => [.completed outcome.choices.length outcome.selection]

end Optimizer

end Crossover
