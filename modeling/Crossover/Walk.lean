/-
Crossover.Walk — walking forward over a series: one trial for each window.

A trial searches the training stretch for the best pair and scores that pair on the test stretch; it
is skipped when the search finds none. The trials that chose a pair are numbered from zero in the
order of their windows (`choicesFrom`), so that a skipped window uses up no number.
-/
import Crossover.Series
import Crossover.Split
import Crossover.Sweep

namespace Crossover

/-! ## 1. Trials -/

/-- What came out of one window. -/
inductive Trial where
  | chosen (split : Split) (pair : Pair) (trainScore testScore : Float)
  | skipped (split : Split)

namespace Trial

/-- The trial of one window of a series. -/
def run (series : Series) (sweep : Sweep) (split : Split) : Trial :=
  match sweep.winner? (series.slice split.trainStart split.trainStop) with
  | some best =>
    chosen split best.pair best.score
      (best.pair.score (series.slice split.testStart split.testStop))
  | none => skipped split

/-- The trial of a window that may reach beyond the series; none if a stretch that is needed does.
The test stretch is needed only when a pair was found. -/
def run? (series : Series) (sweep : Sweep) (split : Split) : Option Trial :=
  match series.slice? split.trainStart split.trainStop with
  | none => none
  | some train =>
    match sweep.winner? train with
    | none => some (skipped split)
    | some best =>
      (series.slice? split.testStart split.testStop).map fun test =>
        chosen split best.pair best.score (best.pair.score test)

end Trial

/-! ## 2. Choices -/

/-- A window whose trial chose a pair. -/
structure Choice where
  /-- The number of windows before it that chose a pair. -/
  index : Nat
  split : Split
  pair : Pair
  trainScore : Float
  testScore : Float

/-- The choices among some trials, numbered from `next` on. -/
def choicesFrom (next : Nat) : List Trial → List Choice
  | [] => []
  | .skipped _ :: rest => choicesFrom next rest
  | .chosen split pair trainScore testScore :: rest =>
    ⟨next, split, pair, trainScore, testScore⟩ :: choicesFrom (next + 1) rest

def choices (trials : List Trial) : List Choice :=
  choicesFrom 0 trials

/-! ## 3. The walk -/

/-- A plan and the trials of its windows. -/
structure Walk where
  plan : Plan
  trials : List Trial

namespace Walk

/-- Walks forward over a series. Periods are checked before lengths. -/
def across (series : Series) (train test : Nat) (sweep : Sweep) : Except RunError Walk := do
  sweep.check
  let plan ← Plan.of series.size train test
  return ⟨plan, plan.splits.map (Trial.run series sweep)⟩

def choices (w : Walk) : List Choice :=
  Crossover.choices w.trials

end Walk

/-- The choices of the walk over a series; an empty list if every window was skipped. -/
def run (series : Series) (train test : Nat) (sweep : Sweep) : Except RunError (List Choice) := do
  let walk ← Walk.across series train test sweep
  return walk.choices

end Crossover
