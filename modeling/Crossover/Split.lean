/-
Crossover.Split — the windows of a walk forward.

Each window is a stretch of prices to train on and the stretch after it to test on. The next window
begins as many prices later as a test stretch is long, so that the test stretches of all windows lie
side by side. `Plan` holds lengths for which there is at least one window.
-/
import Crossover.RunError
import Crossover.Text.Natural

namespace Crossover

open Text

/-- One window: where its training and its test stretch start and stop. A stretch ends before the
position at which it stops. -/
structure Split where
  trainStart : Nat
  trainStop : Nat
  testStart : Nat
  testStop : Nat
  deriving DecidableEq, Repr

/-- The sum of two lengths; none if it takes more than 64 bits. -/
def lengthSum? (a b : Nat) : Option Nat :=
  if a + b ≤ Natural.greatest then some (a + b) else none

/-- Whether a training and a test stretch fit into a series one behind the other. -/
def stretchesFit (length train test : Nat) : Bool :=
  (lengthSum? train test).any fun required => decide (required ≤ length)

theorem le_of_stretchesFit {length train test : Nat} (h : stretchesFit length train test = true) :
    train + test ≤ length := by
  unfold stretchesFit lengthSum? at h
  split at h
  · exact of_decide_eq_true h
  · cases h

/-- The lengths of a series and of the two stretches of its windows. -/
structure Plan where
  length : Nat
  train : Nat
  test : Nat
  train_pos : 0 < train
  test_pos : 0 < test
  fits : train + test ≤ length

namespace Plan

/-- The plan of three lengths, if they leave room for a window. -/
def of (length train test : Nat) : Except RunError Plan :=
  if h : 0 < train ∧ 0 < test ∧ stretchesFit length train test = true then
    .ok ⟨length, train, test, h.1, h.2.1, le_of_stretchesFit h.2.2⟩
  else .error (.tooShort length train test)

def count (p : Plan) : Nat :=
  (p.length - p.train - p.test) / p.test + 1

/-- The window that begins at a position. -/
def splitAt (p : Plan) (start : Nat) : Split where
  trainStart := start
  trainStop := start + p.train
  testStart := start + p.train
  testStop := start + p.train + p.test

def splits (p : Plan) : List Split :=
  (List.range p.count).map fun k => p.splitAt (k * p.test)

theorem length_splits (p : Plan) : p.splits.length = p.count := by
  simp [splits]

/-- Every window lies within the series. -/
theorem testStop_le_length {p : Plan} {s : Split} (h : s ∈ p.splits) : s.testStop ≤ p.length := by
  obtain ⟨k, hk, rfl⟩ := List.mem_map.1 h
  have hle : k ≤ (p.length - p.train - p.test) / p.test := by
    have := List.mem_range.1 hk
    unfold count at this
    omega
  have hmul : k * p.test ≤ p.length - p.train - p.test :=
    Nat.le_trans (Nat.mul_le_mul_right p.test hle) (Nat.div_mul_le_self _ _)
  have := p.fits
  show k * p.test + p.train + p.test ≤ p.length
  omega

end Plan

end Crossover
