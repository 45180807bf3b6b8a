/-
Crossover.Sweep — pairs of periods, and the search for the best pair on a list of prices.

The candidates of a sweep are its pairs with the fast period below the slow one, ordered by the
place of the fast period and then by that of the slow one. `Sweep.winner?` keeps the first candidate
whose score is above minus infinity and above all scores before it.
-/
import Crossover.Exposure
import Crossover.RunError

namespace Crossover

open Text

/-! ## 1. Pairs -/

structure Pair where
  fast : Nat
  slow : Nat
  deriving DecidableEq, Repr

namespace Pair

def isValid (p : Pair) : Bool :=
  p.fast < p.slow

def score (p : Pair) (closes : List Float) : Float :=
  Crossover.score closes p.fast p.slow

def text (p : Pair) : String :=
  "fast=" ++ Digits.text p.fast ++ ", slow=" ++ Digits.text p.slow

end Pair

/-! ## 2. Sweeps -/

/-- The periods to try for either average, each list in the order in which it is tried. -/
structure Sweep where
  fast : List Nat
  slow : List Nat
  deriving DecidableEq, Repr

namespace Sweep

/-- The periods tried where nothing else is asked for. -/
def standard : Sweep := ⟨[5, 10, 15, 20], [20, 30, 40, 50]⟩

/-- The periods of one side must be some, and none of them zero. -/
def checkSide (side : Side) (periods : List Nat) : Except RunError Unit :=
  if periods.isEmpty then .error (.noPeriods side)
  else if periods.contains 0 then .error (.badPeriod side 0)
  else .ok ()

/-- Checks the fast periods, then the slow ones. -/
def check (s : Sweep) : Except RunError Unit := do
  checkSide .fast s.fast
  checkSide .slow s.slow

/-- A sweep whose periods have been checked. -/
def checked (fast slow : List Nat) : Except RunError Sweep := do
  check ⟨fast, slow⟩
  return ⟨fast, slow⟩

/-- The number of pairs, valid or not. -/
def size (s : Sweep) : Nat :=
  s.fast.length * s.slow.length

/-- The valid pairs, by fast period and then by slow period. -/
def candidates (s : Sweep) : List Pair :=
  (s.fast.flatMap fun f => s.slow.map fun l => ⟨f, l⟩).filter Pair.isValid

/-- A candidate takes a period of each side, the fast one below the slow one. -/
theorem mem_candidates (s : Sweep) (p : Pair) :
    p ∈ s.candidates ↔ p.fast ∈ s.fast ∧ p.slow ∈ s.slow ∧ p.fast < p.slow := by
  simp only [candidates, List.mem_filter, List.mem_flatMap, List.mem_map, Pair.isValid,
    decide_eq_true_eq]
  constructor
  · rintro ⟨⟨f, hf, l, hl, rfl⟩, h⟩
    exact ⟨hf, hl, h⟩
  · rintro ⟨hf, hl, h⟩
    exact ⟨⟨p.fast, hf, p.slow, hl, rfl⟩, h⟩

/-- Whether no fast period is below any slow one. -/
def isDegenerate (s : Sweep) : Bool :=
  s.candidates.isEmpty

end Sweep

/-! ## 3. The search -/

structure Scored where
  pair : Pair
  score : Float

/-- The score to beat: that of the best pair so far, and minus infinity before there is one. -/
def bestScore : Option Scored → Float
  | none => noScore
  | some best => best.score

/-- The better of the best pair so far and the next one, which wins only if its score is greater. -/
def improve (best : Option Scored) (next : Scored) : Option Scored :=
  if bestScore best < next.score then some next else best

/-- The best candidate on a list of prices, the first one of equals; none if no candidate has a
score above minus infinity. -/
def Sweep.winner? (s : Sweep) (closes : List Float) : Option Scored :=
  s.candidates.foldl (fun best p => improve best ⟨p, p.score closes⟩) none

end Crossover
