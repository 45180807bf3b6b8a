/-
Crossover.Notice — what a run reports while it goes on.
-/
import Crossover.Walk
import Crossover.Numeric.Numerals

namespace Crossover

open Text Numeric

inductive Level where
  | debug
  | info
  | warning
  deriving DecidableEq, Repr

def Level.word : Level → String
  | debug => "DEBUG"
  | info => "INFO"
  | warning => "WARN"

inductive Notice where
  | indexColumn (typeName : String)
  | loaded (prices : Nat) (path : String) (timed : Bool)
  | candidates (valid total : Nat)
  | degenerate
  | windows (count train test : Nat)
  /-- The `number`-th of `count` windows chose a pair. -/
  | chose (number count : Nat) (split : Split) (pair : Pair) (trainScore testScore : Float)
  | skipping (start : Nat)
  | completed (windows : Nat) (pair : Pair)

namespace Notice

def level : Notice → Level
  | indexColumn _ => .debug
  | chose .. => .debug
  | degenerate => .warning
  | skipping _ => .warning
  | _ => .info

/-- A score with four decimals. -/
def scoreText (x : Float) : String :=
  String.ofList (fixed 4 x)

/-- A stretch of positions. -/
def stretchText (start stop : Nat) : String :=
  Digits.text start ++ ".." ++ Digits.text stop

def message : Notice → String
  | indexColumn typeName => "Using 'timestamp' column (" ++ typeName ++ ") as index"
  | loaded prices path timed =>
    "Loaded " ++ Digits.text prices ++ " prices from " ++ path ++
      (if timed then " (timestamp index)" else " (position index)")
  | candidates valid total =>
    "Parameter combinations: " ++ Digits.text valid ++ " valid of " ++ Digits.text total
  | degenerate => "No fast period is below any slow period; every window will be skipped"
  | windows count train test =>
    "Generated " ++ Digits.text count ++ " walk-forward windows (train=" ++ Digits.text train ++
      ", test=" ++ Digits.text test ++ ")"
  | chose number count split pair trainScore testScore =>
    "Window " ++ Digits.text number ++ "/" ++ Digits.text count ++ ": train " ++
      stretchText split.trainStart split.trainStop ++ ", test " ++
      stretchText split.testStart split.testStop ++ ", best " ++ pair.text ++ " train=" ++
      scoreText trainScore ++ " test=" ++ scoreText testScore
  | skipping start =>
    "Skipping window at offset " ++ Digits.text start ++ ": no pair with fast < slow"
  | completed count pair =>
    "Completed " ++ Digits.text count ++ " walk-forward windows, selected " ++ pair.text

/-- The line of a notice: its level and its wording. -/
def line (n : Notice) : String :=
  n.level.word ++ " " ++ n.message

end Notice

/-! ## Notices of a walk -/

/-- The notices of windows that chose a pair, the first trial being window `number` of `count`. -/
def choiceNotices (count number : Nat) : List Trial → List Notice
  | [] => []
  | .skipped _ :: rest => choiceNotices count (number + 1) rest
  | .chosen split pair trainScore testScore :: rest =>
    .chose number count split pair trainScore testScore :: choiceNotices count (number + 1) rest

/-- The notices of windows that were skipped. -/
def skipNotices : List Trial → List Notice
  | [] => []
  | .skipped split :: rest => .skipping split.trainStart :: skipNotices rest
  | .chosen .. :: rest => skipNotices rest

/-- The notices of a walk: its windows, each choice, then each skipped window. -/
def Walk.notices (w : Walk) : List Notice :=
  .windows w.trials.length w.plan.train w.plan.test ::
    choiceNotices w.trials.length 1 w.trials ++ skipNotices w.trials

end Crossover
