/-
Crossover.Json.Reader — reading JSON text.

Scanners work on the list of characters still to read and give back what they leave. Every step of
the recursion through values spends one unit of fuel and at least every second step consumes a
character, so fuel of twice the length of the text never runs out (`Json.read?`).
-/
import Crossover.Json.Value

namespace Crossover.Json

open Crossover.Text

/-! ## 1. White space and words -/

/-- The four characters that may stand between tokens. -/
def isSpace (c : Char) : Bool :=
  c = ' ' || c = '\n' || c = '\t' || c = '\r'

/-- The text from its next token on. -/
def skipSpace (cs : List Char) : List Char :=
  cs.dropWhile isSpace

/-! ## 2. Strings -/

/-- A character of a string literal, or a sixteen-bit unit written as an escape. -/
inductive Piece where
  | char (c : Char)
  | unit (n : Nat)

def hexDigit? (c : Char) : Option Nat :=
  if c.isDigit then some (c.toNat - 48)
  else if 'a' ≤ c ∧ c ≤ 'f' then some (c.toNat - 87)
  else if 'A' ≤ c ∧ c ≤ 'F' then some (c.toNat - 55)
  else none

def hexUnit? (a b c d : Char) : Option Nat := do
  let a ← hexDigit? a
  let b ← hexDigit? b
  let c ← hexDigit? c
  let d ← hexDigit? d
  return ((a * 16 + b) * 16 + c) * 16 + d

/-- The character of a one-letter escape. -/
def shortEscape? : Char → Option Char
  | '"' => some '"'
  | '\\' => some '\\'
  | '/' => some '/'
  | 'b' => some '\x08'
  | 'f' => some '\x0c'
  | 'n' => some '\n'
  | 'r' => some '\r'
  | 't' => some '\t'
  | _ => none

/-- The pieces of a string up to its closing quote, and what follows the quote. Control characters
must be escaped. -/
def pieces? : List Char → Option (List Piece × List Char)
  | [] => none
  | '"' :: rest => some ([], rest)
  | '\\' :: 'u' :: a :: b :: c :: d :: rest =>
    match hexUnit? a b c d with
    | none => none
    | some n => (pieces? rest).map fun (ps, left) => (.unit n :: ps, left)
  | '\\' :: e :: rest =>
    match shortEscape? e with
    | none => none
    | some c => (pieces? rest).map fun (ps, left) => (.char c :: ps, left)
  | c :: rest =>
    if c.toNat < 32 ∨ c = '\\' then none
    else (pieces? rest).map fun (ps, left) => (.char c :: ps, left)

/-- Joins the pieces of a string; a surrogate unit must come as one of a pair. -/
def assemble? : List Piece → Option (List Char)
  | [] => some []
  | .char c :: rest => (assemble? rest).map (c :: ·)
  | .unit high :: .unit low :: rest =>
    if 0xD800 ≤ high ∧ high < 0xDC00 then
      if 0xDC00 ≤ low ∧ low < 0xE000 then
        (assemble? rest).map
          (Char.ofNat (0x10000 + (high - 0xD800) * 0x400 + (low - 0xDC00)) :: ·)
      else none
    else if 0xDC00 ≤ high ∧ high < 0xE000 then none
    else (assemble? (.unit low :: rest)).map (Char.ofNat high :: ·)
  | .unit n :: rest =>
    if 0xD800 ≤ n ∧ n < 0xE000 then none else (assemble? rest).map (Char.ofNat n :: ·)

/-! ## 3. Numbers -/

/-- The minus sign of a number, if it has one, and what follows it. -/
def minus : List Char → List Char × List Char
  | '-' :: rest => (['-'], rest)
  | cs => ([], cs)

/-- One digit or more, and what follows them. -/
def digits? (cs : List Char) : Option (List Char × List Char) :=
  let (run, rest) := Digits.takeAll cs
  if run.isEmpty then none else some (run, rest)

/-- The digits in front of the point; a zero stands there alone. -/
def whole? : List Char → Option (List Char × List Char)
  | '0' :: rest => some (['0'], rest)
  | cs => digits? cs

/-- A point and digits, or nothing. -/
def fraction? : List Char → Option (List Char × List Char)
  | '.' :: rest => (digits? rest).map fun (run, left) => ('.' :: run, left)
  | cs => some ([], cs)

/-- The sign of an exponent, if it has one, and what follows it. -/
def exponentSign : List Char → List Char × List Char
  | '+' :: rest => (['+'], rest)
  | cs => minus cs

/-- The letter of an exponent, its sign and digits, or nothing. -/
def exponent? : List Char → Option (List Char × List Char)
  | [] => some ([], [])
  | e :: rest =>
    if e = 'e' ∨ e = 'E' then
      let (sign, digits) := exponentSign rest
      (digits? digits).map fun (run, left) => (e :: sign ++ run, left)
    else some ([], e :: rest)

/-- The literal of a number, and what follows it. -/
def number? (cs : List Char) : Option (List Char × List Char) := do
  let (sign, afterSign) := minus cs
  let (whole, afterWhole) ← whole? afterSign
  let (fraction, afterFraction) ← fraction? afterWhole
  let (exponent, left) ← exponent? afterFraction
  return (sign ++ whole ++ fraction ++ exponent, left)

/-! ## 4. Values -/

/-- A value that is neither array nor object. -/
def scalar? (cs : List Char) : Option (Json × List Char) :=
  match cs with
  | '"' :: rest =>
    (pieces? rest).map fun (ps, left) =>
      match assemble? ps with
      | some text => (.string (String.ofList text), left)
      | none => (.garbled, left)
  | _ =>
    match "null".toList.isPrefixOf? cs with
    | some left => some (.null, left)
    | none =>
      match "true".toList.isPrefixOf? cs with
      | some left => some (.boolean true, left)
      | none =>
        match "false".toList.isPrefixOf? cs with
        | some left => some (.boolean false, left)
        | none => (number? cs).map fun (literal, left) => (.number (String.ofList literal), left)

/-- An object of the members read, which is garbled when one of its names is. -/
def ofMembers (members : List (Option String × Json)) : Json :=
  match members.mapM fun (name, value) => name.map (·, value) with
  | some members => .object members
  | none => .garbled

mutual

/-- A value, and what follows it. -/
def value? : Nat → List Char → Option (Json × List Char)
  | 0, _ => none
  | fuel + 1, cs =>
    match skipSpace cs with
    | '[' :: rest =>
      match skipSpace rest with
      | ']' :: left => some (.array [], left)
      | more => (items? fuel more).map fun (vs, left) => (.array vs, left)
    | '\x7b' :: rest =>
      match skipSpace rest with
      | '\x7d' :: left => some (.object [], left)
      | more => (members? fuel more).map fun (ms, left) => (ofMembers ms, left)
    | more => scalar? more

/-- The items of an array from the next one to the closing bracket. -/
def items? : Nat → List Char → Option (List Json × List Char)
  | 0, _ => none
  | fuel + 1, cs =>
    match value? fuel cs with
    | none => none
    | some (v, rest) =>
      match skipSpace rest with
      | ',' :: more => (items? fuel more).map fun (vs, left) => (v :: vs, left)
      | ']' :: left => some ([v], left)
      | _ => none

/-- The members of an object from the next one to the closing brace; a name that is no text is
`none`. -/
def members? : Nat → List Char → Option (List (Option String × Json) × List Char)
  | 0, _ => none
  | fuel + 1, cs =>
    match skipSpace cs with
    | '"' :: rest =>
      match pieces? rest with
      | none => none
      | some (ps, afterName) =>
        let name := (assemble? ps).map String.ofList
        match skipSpace afterName with
        | ':' :: more =>
          match value? fuel more with
          | none => none
          | some (v, afterValue) =>
            match skipSpace afterValue with
            | ',' :: next => (members? fuel next).map fun (ms, left) => ((name, v) :: ms, left)
            | '\x7d' :: left => some ([(name, v)], left)
            | _ => none
        | _ => none
    | _ => none

end

def read? (text : String) : Option Json :=
  let cs := text.toList
  match value? (2 * cs.length + 1) cs with
  | some (v, rest) => if (skipSpace rest).isEmpty then some v else none
  | none => none

end Crossover.Json
