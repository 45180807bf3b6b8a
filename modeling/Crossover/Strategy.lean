/-
Crossover.Strategy — the strategy file: the selected pair, made ready for trading.
-/
import Crossover.Outcome
import Crossover.Toml.Reader
import Crossover.Toml.Writer

namespace Crossover

open Document

/-! ## 1. Strategies -/

/-- The bars to see before trading: five more than the slow period, a sum of 64 bits, or a tenth of
the training stretch where that is more. -/
def warmUp (slow train : Nat) : Nat :=
  let bars := (slow + 5) % (Text.Natural.greatest + 1)
  if train / 10 ≤ bars then bars else train / 10

/-- What to trade, with which pair, and from which bar on. -/
structure Strategy where
  name : String
  symbol : String
  fast : Nat
  slow : Nat
  minSamples : Nat
  deriving DecidableEq, Repr

namespace Strategy

/-- The strategy that trades a pair found with training stretches of a length. -/
def ofPair (name symbol : String) (pair : Pair) (train : Nat) : Strategy :=
  ⟨name, symbol, pair.fast, pair.slow, warmUp pair.slow train⟩

/-- The strategy that trades the selection of an outcome. -/
def ofOutcome (name symbol : String) (o : Outcome) : Strategy :=
  ofPair name symbol o.selection o.train

/-! ## 2. Writing -/

/-- A strategy as a TOML text; none if a number is too large for one. -/
def toToml? (s : Strategy) : Option String := do
  let fast ← Toml.natMember? "fast_period" s.fast
  let slow ← Toml.natMember? "slow_period" s.slow
  let minSamples ← Toml.natMember? "min_samples" s.minSamples
  return String.ofList
    (Toml.stringMember "strategy_name" s.name ++ '\n' :: Toml.headerLine "params" ++
      Toml.stringMember "symbol" s.symbol ++ fast ++ slow ++ minSamples)

def toJson (s : Strategy) : Json :=
  .object [("strategy_name", .string s.name),
    ("params", .object [("symbol", .string s.symbol), ("fast_period", .ofNat s.fast),
      ("slow_period", .ofNat s.slow), ("min_samples", .ofNat s.minSamples)])]

/-! ## 3. Reading -/

/-- Reads a strategy. Lists in place of records may be too long if `surplus` is allowed. -/
def ofDocument? (surplus : Bool) (d : Document) : Option Strategy := do
  let f ← d.record? ["strategy_name", "params"] surplus
  let name ← f.required "strategy_name" text?
  let params ← f "params"
  let g ← params.record? ["symbol", "fast_period", "slow_period", "min_samples"] surplus
  return ⟨name, ← g.required "symbol" text?, ← g.required "fast_period" natural?,
    ← g.required "slow_period" natural?, ← g.required "min_samples" natural?⟩

def ofToml? (text : String) : Option Strategy :=
  (Toml.read? text).bind fun t => ofDocument? true t.document

end Strategy

end Crossover
