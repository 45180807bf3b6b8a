/-
Crossover.Settings — what an optimization is told: windows, periods, names and outputs.

Settings are kept in a TOML file. Whatever the file leaves out has a standard value.
-/
import Crossover.Disk.Action
import Crossover.Interchange
import Crossover.Toml.Reader
import Crossover.Toml.Writer

namespace Crossover

open Document DiskAction

/-! ## 1. Settings -/

/-- Names, window lengths, periods to try, and where to write. -/
structure Settings where
  symbol : String := "BTCUSDT"
  strategyName : String := "SmaCross"
  train : Nat := 200
  test : Nat := 50
  sweep : Sweep := Sweep.standard
  /-- Where the summary of the windows goes, if it is wanted. -/
  summaryPath : Option Path := none
  strategyPath : Path := ⟨"strategies/sma_walk_forward.toml"⟩
  deriving DecidableEq, Repr

namespace Settings

/-- The settings of a file that says nothing. -/
def standard : Settings := {}

/-- The optimizer for some settings, once their periods have been checked. -/
def optimizer (s : Settings) : Except RunError Optimizer := do
  let sweep ← Sweep.checked s.sweep.fast s.sweep.slow
  return ⟨s.train, s.test, sweep⟩

/-! ## 2. Data files -/

def fieldNames : List String :=
  ["symbol", "strategy_name", "train_window", "test_window", "fast_values", "slow_values",
    "summary_output", "config_output"]

def ofDocument? (d : Document) : Option Settings := do
  let f ← d.record? fieldNames false
  let symbol ← f.orElse "symbol" text? standard.symbol
  let strategyName ← f.orElse "strategy_name" text? standard.strategyName
  let train ← f.orElse "train_window" natural? standard.train
  let test ← f.orElse "test_window" natural? standard.test
  let fast ← f.orElse "fast_values" (list? natural?) standard.sweep.fast
  let slow ← f.orElse "slow_values" (list? natural?) standard.sweep.slow
  let summary ← f.orElse "summary_output" optionalText? none
  let strategy ← f.orElse "config_output" text? standard.strategyPath.text
  return ⟨symbol, strategyName, train, test, ⟨fast, slow⟩, summary.map Path.mk, ⟨strategy⟩⟩

def ofToml? (text : String) : Option Settings :=
  (Toml.read? text).bind fun t => ofDocument? t.document

def toJson (s : Settings) : Json :=
  .object [("symbol", .string s.symbol), ("strategy_name", .string s.strategyName),
    ("train_window", .ofNat s.train), ("test_window", .ofNat s.test),
    ("fast_values", .ofNats s.sweep.fast), ("slow_values", .ofNats s.sweep.slow),
    ("summary_output", match s.summaryPath with
      | none => .null
      | some p => .string p.text),
    ("config_output", .string s.strategyPath.text)]

/-- Settings as a TOML text; none if a number is too large for one. -/
def toToml? (s : Settings) : Option String := do
  let train ← Toml.natMember? "train_window" s.train
  let test ← Toml.natMember? "test_window" s.test
  let fast ← Toml.natsMember? "fast_values" s.sweep.fast
  let slow ← Toml.natsMember? "slow_values" s.sweep.slow
  let summary := match s.summaryPath with
    | none => []
    | some p => Toml.stringMember "summary_output" p.text
  return String.ofList
    (Toml.stringMember "symbol" s.symbol ++ Toml.stringMember "strategy_name" s.strategyName ++
      train ++ test ++ fast ++ slow ++ summary ++
      Toml.stringMember "config_output" s.strategyPath.text)

end Settings

/-! ## 3. Loading -/

/-- Why no settings could be loaded. -/
inductive SettingsError where
  | disk (path : Path) (fault : DiskFault)
  | malformed
  deriving DecidableEq, Repr

namespace SettingsError

def cause : SettingsError → String
  | disk _ fault => fault.message
  | malformed => "no settings in TOML"

def message : SettingsError → String
  | disk path fault => "IO error reading " ++ path.text ++ ": " ++ fault.message
  | malformed => "Invalid config file: " ++ malformed.cause

end SettingsError

def Settings.load (p : Path) : Attempt SettingsError Settings := do
  let text ← ExceptT.adapt (SettingsError.disk p) (readText p)
  match Settings.ofToml? text with
  | some s => return s
  | none => throw .malformed

end Crossover
