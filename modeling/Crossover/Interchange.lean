/-
Crossover.Interchange — the results of a run as JSON, and reading them back.
-/
import Crossover.Document
import Crossover.Outcome

namespace Crossover

open Document

/-! ## 1. Pairs and sweeps -/

def Pair.toJson (p : Pair) : Json :=
  .object [("fast", .ofNat p.fast), ("slow", .ofNat p.slow)]

def Pair.ofDocument? (d : Document) : Option Pair := do
  let f ← d.record? ["fast", "slow"] false
  return ⟨← f.required "fast" natural?, ← f.required "slow" natural?⟩

def Sweep.toJson (s : Sweep) : Json :=
  .object [("fast_values", .ofNats s.fast), ("slow_values", .ofNats s.slow)]

/-- Reads a sweep, without checking its periods. -/
def Sweep.ofDocument? (d : Document) : Option Sweep := do
  let f ← d.record? ["fast_values", "slow_values"] false
  return ⟨← f.required "fast_values" (list? natural?), ← f.required "slow_values" (list? natural?)⟩

/-! ## 2. Exposures -/

def Exposure.word : Exposure → String
  | long => "long"
  | short => "short"
  | flat => "flat"

def Exposure.ofWord? (word : String) : Option Exposure :=
  [long, short, flat].find? fun e => e.word == word

def Exposure.toJson (e : Exposure) : Json :=
  .string e.word

/-- Reads an exposure: its word, or a record of one null field with that name. -/
def Exposure.ofDocument? : Document → Option Exposure
  | .text word => ofWord? word
  | .fields [(word, .null)] => ofWord? word
  | _ => none

/-! ## 3. Choices -/

def Split.toJson (s : Split) : Json :=
  .object [("train_start", .ofNat s.trainStart), ("train_end", .ofNat s.trainStop),
    ("test_start", .ofNat s.testStart), ("test_end", .ofNat s.testStop)]

def Split.ofDocument? (d : Document) : Option Split := do
  let f ← d.record? ["train_start", "train_end", "test_start", "test_end"] false
  return ⟨← f.required "train_start" natural?, ← f.required "train_end" natural?,
    ← f.required "test_start" natural?, ← f.required "test_end" natural?⟩

def Choice.toJson (c : Choice) : Json :=
  .object [("window_index", .ofNat c.index), ("bounds", c.split.toJson),
    ("chosen_pair", c.pair.toJson), ("train_score", .ofFloat c.trainScore),
    ("test_score", .ofFloat c.testScore)]

def Choice.ofDocument? (d : Document) : Option Choice := do
  let f ← d.record? ["window_index", "bounds", "chosen_pair", "train_score", "test_score"] false
  return ⟨← f.required "window_index" natural?, ← f.required "bounds" Split.ofDocument?,
    ← f.required "chosen_pair" Pair.ofDocument?, ← f.required "train_score" real?,
    ← f.required "test_score" real?⟩

/-! ## 4. Tallies and outcomes -/

def Tally.toJson (t : Tally) : Json :=
  .object [("pair", t.pair.toJson), ("windows", .ofNat t.windows),
    ("mean_test_score", .ofFloat t.meanTestScore)]

def Tally.ofDocument? (d : Document) : Option Tally := do
  let f ← d.record? ["pair", "windows", "mean_test_score"] false
  return ⟨← f.required "pair" Pair.ofDocument?, ← f.required "windows" natural?,
    ← f.required "mean_test_score" real?⟩

def Outcome.toJson (o : Outcome) : Json :=
  .object [("records", .array (o.choices.map Choice.toJson)), ("selection", o.selection.toJson),
    ("train_window", .ofNat o.train), ("test_window", .ofNat o.test),
    ("boundaries", .ofNat o.windows)]

end Crossover
