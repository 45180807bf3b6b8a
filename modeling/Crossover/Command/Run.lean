/-
Crossover.Command.Run — carrying out a request.

A request is an action on a disk that ends in lines of output or in a failure. What an optimization
leaves behind is written only after the whole walk has succeeded.
-/
import Crossover.Artifact
import Crossover.Command.Arguments
import Crossover.PeriodList
import Crossover.PriceFile
import Crossover.Settings

namespace Crossover.Command

open Text DiskAction

/-! ## 1. Failures -/

/-- What failed, and what lies behind it, the nearest cause first. -/
structure Failure where
  message : String
  causes : List String
  deriving DecidableEq, Repr

namespace Failure

def ofRun (e : RunError) : Failure :=
  ⟨e.message, []⟩

def ofPeriods (name : String) (b : BadPeriodList) : Failure :=
  ⟨"Invalid --" ++ name, [b.message]⟩

def ofSettings (p : Path) (e : SettingsError) : Failure :=
  ⟨"Failed to load config " ++ p.text, [e.message, e.cause]⟩

def ofLoad (p : Path) (e : LoadError) : Failure :=
  ⟨"Failed to load " ++ p.text, e.message :: e.cause?.toList⟩

def ofWrite (what : String) (p : Path) (e : WriteError) : Failure :=
  ⟨"Failed to write " ++ what ++ " " ++ p.text, [e.message, e.cause]⟩

/-- A cause in a report, behind `head`; its further lines are set in by `indent` blanks. -/
def causeText (head : String) (indent : Nat) (cause : String) : String :=
  head ++ String.ofList (cause.toList.flatMap fun c =>
    if c = '\n' then '\n' :: List.replicate indent ' ' else [c])

/-- The causes in a report, numbered from a number on. -/
def numbered (number : Nat) : List String → List String
  | [] => []
  | cause :: rest =>
    causeText (String.ofList ((Digits.ofNat number).leftpad 5 ' ') ++ ": ") 7 cause ::
      numbered (number + 1) rest

/-- The report of a failure: what failed and, further down, its causes, numbered if they are
several. -/
def report (f : Failure) : String :=
  match f.causes with
  | [] => "Error: " ++ f.message
  | [cause] => "Error: " ++ f.message ++ "\n\nCaused by:\n" ++ causeText "    " 4 cause
  | causes =>
    "Error: " ++ f.message ++ "\n\nCaused by:\n" ++ "\n".intercalate (numbered 0 causes)

end Failure

/-! ## 2. Optimizing -/

/-- The periods that replace others, if an option gives any. -/
def periodsOr (name : String) (given : Option String) (others : List Nat) :
    Except Failure (List Nat) :=
  match given with
  | none => .ok others
  | some text => (PeriodList.read text).mapError (Failure.ofPeriods name)

/-- The settings with what replaces them. Fast periods are read before slow ones. -/
def Overrides.apply (o : Overrides) (s : Settings) : Except Failure Settings := do
  let fast ← periodsOr "fast-range" o.fast s.sweep.fast
  let slow ← periodsOr "slow-range" o.slow s.sweep.slow
  return {
    symbol := o.symbol.getD s.symbol
    strategyName := s.strategyName
    train := o.train.getD s.train
    test := o.test.getD s.test
    sweep := ⟨fast, slow⟩
    summaryPath := o.summaryPath <|> s.summaryPath
    strategyPath := o.strategyPath.getD s.strategyPath }

def loadSettings (source : Option Path) : Attempt Failure Settings :=
  match source with
  | none => return Settings.standard
  | some p => ExceptT.adapt (Failure.ofSettings p) (Settings.load p)

def optimizeSeries (s : Settings) (series : Series) : Except RunError Outcome := do
  let optimizer ← s.optimizer
  optimizer.optimize series

/-- Writes the summary, if one is wanted, and then the strategy. -/
def writeAll (s : Settings) (series : Series) (o : Outcome) : Attempt Failure Unit := do
  match s.summaryPath with
  | none => pure ()
  | some p => ExceptT.adapt (Failure.ofWrite "summary" p) (writeSummary series o.choices p)
  ExceptT.adapt (Failure.ofWrite "config" s.strategyPath)
    ((Strategy.ofOutcome s.strategyName s.symbol o).save s.strategyPath)

def optimizeLines (s : Settings) (o : Outcome) : List String :=
  ["Completed " ++ Digits.text o.choices.length ++ " walk-forward windows",
    "Average test score: " ++ Notice.scoreText o.meanTestScore,
    "Selected params -> " ++ o.selection.text,
    "Config written to " ++ s.strategyPath.text] ++
  (s.summaryPath.map fun p => "Summary written to " ++ p.text).toList

def optimize (data : Path) (source : Option Path) (overrides : Overrides) :
    Attempt Failure (List String) := do
  let loaded ← loadSettings source
  let settings ← DiskAction.settled (overrides.apply loaded)
  let series ← ExceptT.adapt (Failure.ofLoad data) (Series.load data)
  let outcome ← ExceptT.adapt Failure.ofRun (DiskAction.settled (optimizeSeries settings series))
  writeAll settings series outcome
  return optimizeLines settings outcome

/-! ## 3. Scoring -/

/-- The line that says how a pair does on a series. -/
def scoreLine (pair : Pair) (series : Series) : String :=
  let head := "fast=" ++ Digits.text pair.fast ++ " slow=" ++ Digits.text pair.slow
  let value := pair.score series.closes
  if value == noScore then head ++ ": invalid pair (fast must be below slow)"
  else
    head ++ ": cumulative return " ++ Notice.scoreText value ++ " over " ++
      Digits.text series.size ++ " bars"

def score (data : Path) (pair : Pair) : Attempt Failure (List String) := do
  let series ← ExceptT.adapt (Failure.ofLoad data) (Series.load data)
  return [scoreLine pair series]

/-! ## 4. Requests -/

/-- Carries out a request, and gives the lines to print. -/
def Request.run : Request → Attempt Failure (List String)
  | optimize data settings overrides => Command.optimize data settings overrides
  | score data fast slow => Command.score data ⟨fast, slow⟩

end Crossover.Command
