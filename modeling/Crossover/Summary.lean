/-
Crossover.Summary — the table of the windows of a walk: which bars, which pair, which scores.

The table is written as comma-separated values or as JSON, with the same columns in the same order.
A stretch is shown by the labels of its first and its last bar.
-/
import Crossover.Disk.Path
import Crossover.Interchange
import Crossover.Json.Writer

namespace Crossover

open Numeric Text

/-! ## 1. Rows -/

/-- One window of the table. -/
structure SummaryRow where
  window : Nat
  trainStart : Label
  trainEnd : Label
  testStart : Label
  testEnd : Label
  fast : Nat
  slow : Nat
  trainScore : Float
  testScore : Float

/-- The label of the last bar before a position. -/
def Series.labelBefore? (s : Series) (position : Nat) : Option Label :=
  if position = 0 then none else s.label? (position - 1)

namespace SummaryRow

/-- The row of a choice; none if a bar is named that the series does not have. -/
def of? (series : Series) (c : Choice) : Option SummaryRow := do
  let trainStart ← series.label? c.split.trainStart
  let trainEnd ← series.labelBefore? c.split.trainStop
  let testStart ← series.label? c.split.testStart
  let testEnd ← series.labelBefore? c.split.testStop
  return ⟨c.index, trainStart, trainEnd, testStart, testEnd, c.pair.fast, c.pair.slow, c.trainScore,
    c.testScore⟩

def columnNames : List String :=
  ["window", "train_start", "train_end", "test_start", "test_end", "fast", "slow", "train_score",
    "test_score"]

/-! ## 2. Comma-separated values -/

/-- Scores are written plainly from `0.00001` to below `10^16`, and a positive exponent has no
sign. -/
def numerals : NumeralStyle := ⟨-5, 16, false⟩

/-- A score; one that is not finite has a name. -/
def scoreText (x : Float) : String :=
  String.ofList (if x.isFinite then numerals.write x else specialName x)

def csvFields (r : SummaryRow) : List String :=
  [Digits.text r.window, r.trainStart.text, r.trainEnd.text, r.testStart.text, r.testEnd.text,
    Digits.text r.fast, Digits.text r.slow, scoreText r.trainScore, scoreText r.testScore]

def csvLine (fields : List String) : List Char :=
  [','].intercalate (fields.map String.toList) ++ ['\n']

/-! ## 3. JSON -/

def toJson (r : SummaryRow) : Json :=
  .object [("window", .ofNat r.window), ("train_start", r.trainStart.toJson),
    ("train_end", r.trainEnd.toJson), ("test_start", r.testStart.toJson),
    ("test_end", r.testEnd.toJson), ("fast", .ofNat r.fast), ("slow", .ofNat r.slow),
    ("train_score", .ofFloat r.trainScore), ("test_score", .ofFloat r.testScore)]

end SummaryRow

/-! ## 4. The table -/

def summaryRows? (series : Series) (choices : List Choice) : Option (List SummaryRow) :=
  choices.mapM (SummaryRow.of? series)

/-- The table as comma-separated values: the names of the columns, then one line for each row. -/
def summaryCsv (rows : List SummaryRow) : String :=
  String.ofList (SummaryRow.csvLine SummaryRow.columnNames ++
    rows.flatMap fun r => SummaryRow.csvLine r.csvFields)

def summaryJson (rows : List SummaryRow) : String :=
  (Json.array (rows.map SummaryRow.toJson)).pretty

/-- The table in the form that a path asks for: JSON if it ends in `.json`. -/
def summaryText (p : Path) (rows : List SummaryRow) : String :=
  if p.extension? = some "json" then summaryJson rows else summaryCsv rows

end Crossover
