/-
Crossover.Document — what a typed reader sees of a data file, whatever its notation.

A record is written by field name or, in order, as a list. Unknown names are skipped; a known name
may occur once.
-/
import Crossover.Json.Value

namespace Crossover

open Text Numeric

/-! ## 1. Documents -/

/-- A value of a data file. -/
inductive Document where
  | null
  | boolean (b : Bool)
  /-- A number without sign, point or exponent that fits 64 bits. -/
  | natural (n : Nat)
  | real (x : Float)
  | text (s : String)
  | list (items : List Document)
  | fields (members : List (String × Document))
  /-- A value that no field takes. -/
  | unusable

namespace Document

/-- The greatest natural number of a document. -/
def greatest : Nat := 18446744073709551615

/-! ## 2. Fields of a single type -/

def natural? : Document → Option Nat
  | natural n => some n
  | _ => none

/-- A double; a natural number is one as well. -/
def real? : Document → Option Float
  | natural n => some (floatOfInt n)
  | real x => some x
  | _ => none

def text? : Document → Option String
  | text s => some s
  | _ => none

/-- A string, or nothing at all. -/
def optionalText? : Document → Option (Option String)
  | null => some none
  | text s => some (some s)
  | _ => none

def list? (item? : Document → Option α) : Document → Option (List α)
  | list items => items.mapM item?
  | _ => none

/-! ## 3. Records -/

/-- The fields of a record, by name. -/
abbrev Fields := String → Option Document

/-- Whether each of the names occurs at most once. -/
def namedOnce (names : List String) (members : List (String × Document)) : Bool :=
  names.all fun name => (members.filter fun m => m.1 == name).length ≤ 1

/-- Reads a record with the given field names. A list gives the fields in the order of the names; it
may be longer than they are only if `surplus` is allowed. -/
def record? (names : List String) (surplus : Bool) : Document → Option Fields
  | fields members =>
    if namedOnce names members then
      some fun name => if names.contains name then members.lookup name else none
    else none
  | list items =>
    if items.length ≤ names.length || surplus then some fun name => (names.zip items).lookup name
    else none
  | _ => none

/-- A field that must be there. -/
def Fields.required (f : Fields) (name : String) (field? : Document → Option α) : Option α :=
  (f name).bind field?

/-- A field that has a value of its own where it is left out. -/
def Fields.orElse (f : Fields) (name : String) (field? : Document → Option α) (other : α) :
    Option α :=
  match f name with
  | none => some other
  | some d => field? d

end Document

/-! ## 4. JSON as documents -/

/-- A number of a JSON text. One too large for a double fits no field. -/
def Document.ofNumeral (literal : List Char) : Document :=
  if literal.all Char.isDigit && Digits.value literal ≤ Document.greatest then
    .natural (Digits.value literal)
  else
    match Numeral.read? literal with
    | some n => if n.toFloat.isFinite then .real n.toFloat else .unusable
    | none => .unusable

mutual

/-- A JSON value as a document. -/
def Json.document : Json → Document
  | .null => .null
  | .boolean b => .boolean b
  | .number literal => Document.ofNumeral literal.toList
  | .string text => .text text
  | .array items => .list (Json.documents items)
  | .object members => .fields (Json.memberDocuments members)
  | .garbled => .unusable

def Json.documents : List Json → List Document
  | [] => []
  | v :: vs => v.document :: Json.documents vs

def Json.memberDocuments : List (String × Json) → List (String × Document)
  | [] => []
  | (name, v) :: ms => (name, v.document) :: Json.memberDocuments ms

end

end Crossover
