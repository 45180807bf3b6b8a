/-
Crossover.Toml.Writer — writing TOML text.

A string is written in the first of four forms that needs no escape, or else in quotes with escapes
(`StringForm.of`). A text with line breaks takes a form over several lines, which then begins with a
line break of its own that readers skip.
-/
import Crossover.Text.Digits

namespace Crossover.Toml

open Crossover.Text

/-! ## 1. Forms of strings -/

inductive StringForm where
  /-- In quotes on one line. -/
  | basic
  /-- Between apostrophes on one line. -/
  | literal
  /-- In triple quotes. -/
  | basicLines
  /-- Between triple apostrophes. -/
  | literalLines
  deriving DecidableEq, Repr

/-- Whether a character has to be escaped in every form: control characters other than tabulator and
line feed. -/
def isControl (c : Char) : Bool :=
  (c.toNat < 32 && c ≠ '\t' && c ≠ '\n') || c.toNat = 127

/-- Whether a text holds three of a character in a row. -/
def hasTriple (mark : Char) : List Char → Bool
  | a :: b :: c :: rest =>
    (a = mark && b = mark && c = mark) || hasTriple mark (b :: c :: rest)
  | _ => false

/-- The form in which a text is written. -/
def StringForm.of (cs : List Char) : StringForm :=
  let clean := !cs.any isControl
  let oneLine := !cs.contains '\n'
  let noBackslash := !cs.contains '\\'
  if clean && noBackslash && !cs.contains '"' && oneLine then basic
  else if clean && !cs.contains '\'' && oneLine then literal
  else if clean && noBackslash && !hasTriple '"' cs then basicLines
  else if clean && !hasTriple '\'' cs then literalLines
  else if oneLine then basic
  else basicLines

/-! ## 2. Strings -/

def hexDigit (n : Nat) : Char :=
  if n < 10 then Char.ofNat (48 + n) else Char.ofNat (55 + n)

/-- A character other than a quote in a form with escapes. -/
def escaped (severalLines : Bool) (c : Char) : List Char :=
  if c = '\x08' then ['\\', 'b']
  else if c = '\t' then ['\\', 't']
  else if c = '\n' then if severalLines then ['\n'] else ['\\', 'n']
  else if c = '\x0c' then ['\\', 'f']
  else if c = '\r' then ['\\', 'r']
  else if c = '\\' then ['\\', '\\']
  else if isControl c then ['\\', 'u', '0', '0', hexDigit (c.toNat / 16), hexDigit (c.toNat % 16)]
  else [c]

/-- The inside of a string on one line: every quote is escaped. -/
def basicChars (cs : List Char) : List Char :=
  cs.flatMap fun c => if c = '"' then ['\\', '"'] else escaped false c

/-- The inside of a string over several lines, after `run` quotes in a row: each third quote in a row
is escaped. -/
def basicLinesChars (run : Nat) : List Char → List Char
  | [] => []
  | c :: rest =>
    if c = '"' then
      if run = 2 then '\\' :: '"' :: basicLinesChars 0 rest else '"' :: basicLinesChars (run + 1) rest
    else escaped true c ++ basicLinesChars 0 rest

/-- The line break that opens a string over several lines, if the text has any. -/
def opening (cs : List Char) : List Char :=
  if cs.contains '\n' then ['\n'] else []

def stringChars (cs : List Char) : List Char :=
  match StringForm.of cs with
  | .basic => '"' :: basicChars cs ++ ['"']
  | .literal => '\'' :: cs ++ ['\'']
  | .basicLines => ['"', '"', '"'] ++ opening cs ++ basicLinesChars 0 cs ++ ['"', '"', '"']
  | .literalLines => ['\'', '\'', '\''] ++ opening cs ++ cs ++ ['\'', '\'', '\'']

/-! ## 3. Members -/

/-- The greatest integer of a TOML text. -/
def greatest : Nat := 9223372036854775807

def stringMember (name : String) (value : String) : List Char :=
  name.toList ++ [' ', '=', ' '] ++ stringChars value.toList ++ ['\n']

/-- A member whose value is a natural number; none if the number is too large. -/
def natMember? (name : String) (value : Nat) : Option (List Char) :=
  if value ≤ greatest then
    some (name.toList ++ [' ', '=', ' '] ++ Digits.ofNat value ++ ['\n'])
  else none

/-- A member whose value is a list of natural numbers; none if one of them is too large. -/
def natsMember? (name : String) (values : List Nat) : Option (List Char) :=
  if values.all (· ≤ greatest) then
    some (name.toList ++ [' ', '=', ' ', '['] ++
      [',', ' '].intercalate (values.map Digits.ofNat) ++ [']', '\n'])
  else none

def headerLine (name : String) : List Char :=
  '[' :: name.toList ++ [']', '\n']

end Crossover.Toml
