/-
Crossover.Toml.Scalar — the words of TOML: strings, numbers and moments.

Scanners work on the list of characters still to read and give back what they leave. Numbers and
moments have no delimiters of their own, so that a whole word is taken first and judged then.
-/
import Crossover.Toml.Value
import Crossover.Json.Reader
import Crossover.Calendar.Layout

namespace Crossover.Toml

open Crossover.Text Crossover.Numeric

/-! ## 1. Characters -/

/-- Whether a character may stand in a string or comment as it is: no control character but the
tabulator. -/
def isPlain (c : Char) : Bool :=
  c = '\t' || (32 ≤ c.toNat && c.toNat ≠ 127)

/-- The text without a line break at its head, if there is one. -/
def lineBreak? : List Char → Option (List Char)
  | '\n' :: rest => some rest
  | '\r' :: '\n' :: rest => some rest
  | _ => none

/-- The text without a line break at its head. -/
def skipLineBreak (cs : List Char) : List Char :=
  (lineBreak? cs).getD cs

def isSpace (c : Char) : Bool :=
  c = ' ' || c = '\t'

/-- The text without spaces and tabulators at its head. -/
def skipSpace (cs : List Char) : List Char :=
  cs.dropWhile isSpace

/-! ## 2. Escapes -/

/-- The value of hexadecimal digits. -/
def hexValue? (cs : List Char) : Option Nat :=
  cs.foldlM (fun n c => (Json.hexDigit? c).map (16 * n + ·)) 0

def charOf? (n : Nat) : Option Char :=
  if n < 0xD800 ∨ (0xDFFF < n ∧ n < 0x110000) then some (Char.ofNat n) else none

/-- The character of an escape of a given number of hexadecimal digits. -/
def hexEscape? (digits : Nat) (cs : List Char) : Option (Char × List Char) :=
  if cs.length < digits then none
  else ((hexValue? (cs.take digits)).bind charOf?).map (·, cs.drop digits)

/-- The character of an escape after its backslash, and what follows it. -/
def escape? : List Char → Option (Char × List Char)
  | '"' :: rest => some ('"', rest)
  | '\\' :: rest => some ('\\', rest)
  | 'b' :: rest => some ('\x08', rest)
  | 'f' :: rest => some ('\x0c', rest)
  | 'n' :: rest => some ('\n', rest)
  | 'r' :: rest => some ('\r', rest)
  | 't' :: rest => some ('\t', rest)
  | 'u' :: rest => hexEscape? 4 rest
  | 'U' :: rest => hexEscape? 8 rest
  | _ => none

/-! ## 3. Strings -/

/-- The characters of a string on one line up to its closing quote. -/
def basic? : Nat → List Char → Option (List Char × List Char)
  | 0, _ => none
  | fuel + 1, cs =>
    match cs with
    | '"' :: rest => some ([], rest)
    | '\\' :: rest =>
      match escape? rest with
      | some (c, more) => (basic? fuel more).map fun (text, left) => (c :: text, left)
      | none => none
    | c :: rest =>
      if isPlain c then (basic? fuel rest).map fun (text, left) => (c :: text, left) else none
    | [] => none

/-- The characters of a string between apostrophes, all standing for themselves. -/
def literal? : List Char → Option (List Char × List Char)
  | '\'' :: rest => some ([], rest)
  | c :: rest =>
    if isPlain c then (literal? rest).map fun (text, left) => (c :: text, left) else none
  | [] => none

/-- The quotes at the head of a string over several lines: those that belong to it, whether the
string ends with them, and what follows. Up to two quotes belong to the string; three end it, and
may have two before them. -/
def quotes? (mark : Char) (cs : List Char) : Option (List Char × Bool × List Char) :=
  let run := cs.takeWhile (· = mark)
  let rest := cs.drop run.length
  if run.length < 3 then some (run, false, rest)
  else if run.length ≤ 5 then some (run.drop 3, true, rest)
  else none

/-- The text without spaces, tabulators and line breaks at its head. -/
def skipBreaks : List Char → List Char
  | '\r' :: '\n' :: rest => skipBreaks rest
  | c :: rest => if isSpace c || c = '\n' then skipBreaks rest else c :: rest
  | [] => []

/-- The text after a backslash at the end of a line: what follows the white space there, which must
hold a line break. -/
def joinedLine? (cs : List Char) : Option (List Char) :=
  (lineBreak? (skipSpace cs)).map skipBreaks

/-- The characters of a string over several lines in quotes up to its end. -/
def basicLines? : Nat → List Char → Option (List Char × List Char)
  | 0, _ => none
  | fuel + 1, cs =>
    match cs with
    | '"' :: _ =>
      match quotes? '"' cs with
      | some (own, true, rest) => some (own, rest)
      | some (own, false, rest) =>
        (basicLines? fuel rest).map fun (text, left) => (own ++ text, left)
      | none => none
    | '\\' :: rest =>
      match joinedLine? rest with
      | some more => basicLines? fuel more
      | none =>
        match escape? rest with
        | some (c, more) => (basicLines? fuel more).map fun (text, left) => (c :: text, left)
        | none => none
    | _ =>
      match lineBreak? cs with
      | some more => (basicLines? fuel more).map fun (text, left) => ('\n' :: text, left)
      | none =>
        match cs with
        | c :: rest =>
          if isPlain c then (basicLines? fuel rest).map fun (text, left) => (c :: text, left)
          else none
        | [] => none

/-- The characters of a string over several lines between apostrophes up to its end. -/
def literalLines? : Nat → List Char → Option (List Char × List Char)
  | 0, _ => none
  | fuel + 1, cs =>
    match cs with
    | '\'' :: _ =>
      match quotes? '\'' cs with
      | some (own, true, rest) => some (own, rest)
      | some (own, false, rest) =>
        (literalLines? fuel rest).map fun (text, left) => (own ++ text, left)
      | none => none
    | _ =>
      match lineBreak? cs with
      | some more => (literalLines? fuel more).map fun (text, left) => ('\n' :: text, left)
      | none =>
        match cs with
        | c :: rest =>
          if isPlain c then (literalLines? fuel rest).map fun (text, left) => (c :: text, left)
          else none
        | [] => none

/-- A string of any of the four kinds. -/
def string? (cs : List Char) : Option (List Char × List Char) :=
  match cs with
  | '"' :: '"' :: '"' :: rest => basicLines? (rest.length + 1) (skipLineBreak rest)
  | '"' :: rest => basic? (rest.length + 1) rest
  | '\'' :: '\'' :: '\'' :: rest => literalLines? (rest.length + 1) (skipLineBreak rest)
  | '\'' :: rest => literal? rest
  | _ => none

/-! ## 4. Numbers -/

/-- Whether a text is digits of a kind, single underscores between them allowed. -/
def isRun (isDigit : Char → Bool) (cs : List Char) : Bool :=
  (cs.splitOn '_').all fun part => !part.isEmpty && part.all isDigit

def withoutUnderscores (cs : List Char) : List Char :=
  cs.filter (· ≠ '_')

/-- Whether a text is a decimal integer after its sign: no zero stands before other digits. -/
def isDecimal (cs : List Char) : Bool :=
  match cs with
  | ['0'] => true
  | '0' :: _ => false
  | _ => isRun Char.isDigit cs

/-- An integer that fits 64 bits with a sign. -/
def inRange? (n : Int) : Option Toml :=
  if -9223372036854775808 ≤ n ∧ n ≤ 9223372036854775807 then some (.integer n) else none

/-- Digits of a base other than ten. -/
def based? (base : Nat) (isDigit : Char → Bool) (cs : List Char) : Option Toml :=
  if isRun isDigit cs then
    match (withoutUnderscores cs).foldlM
      (fun n c => (Json.hexDigit? c).map fun d => base * n + d) 0 with
    | some n => inRange? n
    | none => none
  else none

def integer? (cs : List Char) : Option Toml :=
  match cs with
  | '0' :: 'x' :: digits => based? 16 (fun c => (Json.hexDigit? c).isSome) digits
  | '0' :: 'o' :: digits => based? 8 (fun c => '0' ≤ c && c ≤ '7') digits
  | '0' :: 'b' :: digits => based? 2 (fun c => c = '0' || c = '1') digits
  | _ =>
    let (negative, digits) := Numeral.sign cs
    if isDecimal digits then
      let n : Int := Digits.value (withoutUnderscores digits)
      inRange? (if negative then -n else n)
    else none

/-- Whether a text is an exponent: `e`, an optional sign and digits. -/
def isExponent : List Char → Bool
  | c :: rest => (c = 'e' || c = 'E') && isRun Char.isDigit (Numeral.sign rest).2
  | [] => false

/-- Whether a text has the form of a float with digits. -/
def isFloat (cs : List Char) : Bool :=
  let body := (Numeral.sign cs).2
  let whole := body.takeWhile fun c => c.isDigit || c = '_'
  let rest := body.drop whole.length
  isDecimal whole &&
    match rest with
    | '.' :: more =>
      let fraction := more.takeWhile fun c => c.isDigit || c = '_'
      let tail := more.drop fraction.length
      isRun Char.isDigit fraction && (tail.isEmpty || isExponent tail)
    | _ => isExponent rest

/-- A float. One with digits must not be beyond the greatest double. -/
def float? (cs : List Char) : Option Toml :=
  let (negative, body) := Numeral.sign cs
  if body = "inf".toList then some (.float (ofPattern negative Format.double.infinity))
  else if body = "nan".toList then some (.float (0.0 / 0.0))
  else if isFloat cs then
    match Numeral.read? (withoutUnderscores cs) with
    | some n => if n.toFloat.isInf && !negative then none else some (.float n.toFloat)
    | none => none
  else none

/-! ## 5. Moments -/

/-- A number of two digits below a bound, and what follows it. -/
def twoDigits? (bound : Nat) (cs : List Char) : Option (List Char) :=
  match Item.number? 2 2 cs with
  | some (n, rest) => if n < bound then some rest else none
  | none => none

/-- What follows a certain character. -/
def after? (c : Char) : List Char → Option (List Char)
  | d :: rest => if d = c then some rest else none
  | [] => none

/-- What follows a date of the calendar. -/
def date? (cs : List Char) : Option (List Char) := do
  let (year, cs) ← Item.number? 4 4 cs
  let cs ← after? '-' cs
  let (month, cs) ← Item.number? 2 2 cs
  let cs ← after? '-' cs
  let (day, cs) ← Item.number? 2 2 cs
  let _ ← Civil.day? ⟨year, month, day⟩
  return cs

/-- What follows a time of day. -/
def clock? (cs : List Char) : Option (List Char) := do
  let cs ← twoDigits? 24 cs
  let cs ← after? ':' cs
  let cs ← twoDigits? 60 cs
  let cs ← after? ':' cs
  let cs ← twoDigits? 61 cs
  match cs with
  | '.' :: rest =>
    let (run, left) := Digits.takeAll rest
    if run.isEmpty then none else some left
  | _ => some cs

/-- Whether a text is an offset from universal time, or nothing. -/
def isOffset (cs : List Char) : Bool :=
  match cs with
  | [] => true
  | ['Z'] => true
  | ['z'] => true
  | '+' :: rest => (Item.offset? rest).any fun r => r.2.isEmpty
  | '-' :: rest => (Item.offset? rest).any fun r => r.2.isEmpty
  | _ => false

/-- Whether a text is a date, a time of day, or a date and a time of day with or without offset. -/
def isMoment (cs : List Char) : Bool :=
  match date? cs with
  | some [] => true
  | some (c :: rest) => (c = 'T' || c = 't' || c = ' ') && (clock? rest).any isOffset
  | none => (clock? cs).any List.isEmpty

/-! ## 6. Words -/

/-- Whether a character may stand in a number or a moment. -/
def isWordChar (c : Char) : Bool :=
  c.isAlphanum || c = '_' || c = '+' || c = '-' || c = '.' || c = ':'

/-- A word, and what follows it. After a date, one space and the word behind it belong to it if that
word begins with a digit. -/
def word (cs : List Char) : List Char × List Char :=
  let first := cs.takeWhile isWordChar
  let rest := cs.drop first.length
  match date? first, rest with
  | some [], ' ' :: c :: more =>
    if c.isDigit then
      let second := (c :: more).takeWhile isWordChar
      (first ++ ' ' :: second, (c :: more).drop second.length)
    else (first, rest)
  | _, _ => (first, rest)

/-- The value of a word. -/
def scalar? (cs : List Char) : Option Toml :=
  if cs = "true".toList then some (.boolean true)
  else if cs = "false".toList then some (.boolean false)
  else if isMoment cs then some .moment
  else
    match float? cs with
    | some v => some v
    | none => integer? cs

end Crossover.Toml
