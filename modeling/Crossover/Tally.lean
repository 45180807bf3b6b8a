/-
Crossover.Tally — how each chosen pair did out of sample, and which one to recommend.

Choices are grouped by pair, in the order in which pairs were first chosen (`group`). The pair with
the highest mean test score is recommended, the one chosen first among equals.
-/
import Crossover.Walk

namespace Crossover

/-! ## 1. Groups -/

/-- A pair and the test scores of the windows that chose it, in order. -/
structure Group where
  pair : Pair
  scores : List Float

/-- Enters a test score under its pair, behind all groups if the pair is new. -/
def enter (pair : Pair) (score : Float) : List Group → List Group
  | [] => [⟨pair, [score]⟩]
  | g :: rest =>
    if g.pair = pair then ⟨g.pair, g.scores ++ [score]⟩ :: rest else g :: enter pair score rest

def group (choices : List Choice) : List Group :=
  choices.foldl (fun groups c => enter c.pair c.testScore groups) []

/-! ## 2. Tallies -/

/-- The out-of-sample record of a pair. -/
structure Tally where
  pair : Pair
  /-- How many windows chose the pair. -/
  windows : Nat
  meanTestScore : Float

def Group.tally (g : Group) : Tally :=
  ⟨g.pair, g.scores.length, Indicator.total g.scores / Float.ofNat g.scores.length⟩

/-- The tally of every chosen pair, in the order in which pairs were first chosen. -/
def tallies (choices : List Choice) : List Tally :=
  (group choices).map Group.tally

/-! ## 3. The recommendation -/

/-- The better of the best tally so far and the next one, which wins only if its mean is greater. -/
def Tally.prefer (best next : Tally) : Tally :=
  if best.meanTestScore < next.meanTestScore then next else best

/-- The pair with the highest mean test score, the first chosen among equals. -/
def recommend (choices : List Choice) : Except RunError Pair :=
  match tallies choices with
  | [] => .error .noChoices
  | first :: rest => .ok (rest.foldl Tally.prefer first).pair

end Crossover
