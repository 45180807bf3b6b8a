/-
Crossover.Json.Value — JSON values.

A number keeps its literal, so that whoever reads it decides on its precision. An object keeps its
members in order, repeated names included.
-/
import Crossover.Numeric.Numerals

namespace Crossover

open Numeric Text

inductive Json where
  | null
  | boolean (b : Bool)
  | number (literal : String)
  | string (text : String)
  | array (items : List Json)
  | object (members : List (String × Json))
  /-- A value with an escape for half of a surrogate pair in a string: well-formed, yet no text. -/
  | garbled
  deriving Inhabited

namespace Json

/-- Doubles are written plainly from `0.00001` to below `10^16`, and a positive exponent has a plus
sign. -/
def numerals : NumeralStyle := ⟨-5, 16, true⟩

def ofNat (n : Nat) : Json :=
  number (Digits.text n)

/-- A double; one that is not finite has no JSON number and becomes `null`. -/
def ofFloat (x : Float) : Json :=
  if x.isFinite then number (String.ofList (numerals.write x)) else null

def ofNats (ns : List Nat) : Json :=
  array (ns.map ofNat)

end Json

end Crossover
