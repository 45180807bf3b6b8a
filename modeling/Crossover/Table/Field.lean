/-
Crossover.Table.Field — the fields and lines of comma-separated text.

A field is kept as it is written. One that starts with a quote may hold commas and line breaks: each
quote in it opens or closes a stretch in which they stand for themselves. Two ways to cut a text are
at hand. `Rows.ofText` splits a text into rows of fields; `cutLine` takes off a line without looking
at fields, so that a quote counts for it wherever it stands.
-/
namespace Crossover.Csv

/-! ## 1. Fields -/

/-- A field as it is written, quotes included. -/
structure Field where
  written : List Char
  deriving DecidableEq, Repr

namespace Field

/-- Whether nothing is written. A quoted empty field is not empty in this sense. -/
def isEmpty (f : Field) : Bool :=
  f.written.isEmpty

def isQuoted (f : Field) : Bool :=
  f.written.head? == some '"'

/-- The field without a carriage return at its end. -/
def dropReturn (f : Field) : Field :=
  if f.written.getLast? == some '\r' then ⟨f.written.dropLast⟩ else f

/-- What stands between the first and the last byte. A character of several bytes at the end is cut
in two, and a mark stands for the half that is left. -/
def inner (f : Field) : List Char :=
  match f.written.getLast? with
  | some last =>
    f.written.tail.dropLast ++ if last.toNat < 128 then [] else ['\ufffd']
  | none => []

/-- What a field says where no quote is expected in it: its inner text if it starts with a quote, and
else all of it. -/
def bare (f : Field) : List Char :=
  if f.isQuoted && 2 ≤ f.written.length then f.inner else f.written

/-- A text in which each pair of quotes has become one; a quote on its own is left out. -/
def unescape : List Char → List Char
  | [] => []
  | '"' :: '"' :: rest => '"' :: unescape rest
  | '"' :: rest => unescape rest
  | c :: rest => c :: unescape rest

/-- What a field says as a string. A field that starts with a quote has to end with another. -/
def text? (f : Field) : Option (List Char) :=
  if !f.isQuoted then some f.written
  else if 2 ≤ f.written.length && f.written.getLast? == some '"' then some (unescape f.inner)
  else none

end Field

/-! ## 2. Rows -/

/-- The rows of a text: those that a line break ends, and the fields after the last line break. -/
structure Rows where
  ended : List (List Field)
  pending : List Field
  deriving Repr

/-- The state of a scan: whether the field under way starts with a quote, whether commas and line
breaks stand for themselves in it now, its characters, the fields before it on its row and the rows
before that, all latest first. -/
structure Scan where
  quoted : Bool := false
  inside : Bool := false
  written : List Char := []
  row : List Field := []
  rows : List (List Field) := []

namespace Scan

def endField (s : Scan) : Scan :=
  { s with quoted := false, inside := false, written := [],
           row := ⟨s.written.reverse⟩ :: s.row }

def endRow (s : Scan) : Scan :=
  let ended := s.endField
  { ended with row := [], rows := ended.row.reverse :: ended.rows }

def step (s : Scan) (c : Char) : Scan :=
  if c = '"' ∧ (s.quoted ∨ s.written = []) then
    { s with quoted := true, inside := !s.inside, written := c :: s.written }
  else if s.inside then { s with written := c :: s.written }
  else if c = ',' then s.endField
  else if c = '\n' then s.endRow
  else { s with written := c :: s.written }

def finish (s : Scan) : Rows :=
  ⟨s.rows.reverse, if s.row = [] ∧ s.written = [] then [] else s.endField.row.reverse⟩

end Scan

namespace Rows

def ofText (cs : List Char) : Rows :=
  (cs.foldl Scan.step {}).finish

/-- The fields of the first row, none in an empty text. -/
def first (r : Rows) : List Field :=
  r.ended.head?.getD r.pending

end Rows

/-! ## 3. Lines -/

/-- Takes a line off a text, before which an `odd` or even number of quotes was read. `before` is the
line so far, latest first. -/
def cutLineFrom (odd : Bool) (before : List Char) : List Char → List Char × List Char
  | [] => (before.reverse, [])
  | c :: rest =>
    if c = '\n' ∧ odd = false then (before.reverse, rest)
    else cutLineFrom (odd != (c == '"')) (c :: before) rest

/-- Takes the first line off a text, up to a line break with an even number of quotes before it. -/
def cutLine (cs : List Char) : List Char × List Char :=
  cutLineFrom false [] cs

/-- The first lines of a text, at most `most`. -/
def firstLines : Nat → List Char → List (List Char)
  | 0, _ => []
  | _, [] => []
  | most + 1, c :: rest =>
    (cutLine (c :: rest)).1 :: firstLines most (cutLine (c :: rest)).2

/-- The fields of a line, a carriage return at its end left out unless it is all there is. -/
def fieldsOfLine (line : List Char) : List Field :=
  let kept := if 1 < line.length ∧ line.getLast? = some '\r' then line.dropLast else line
  (Rows.ofText kept).first

/-- The text without a byte order mark before it. -/
def skipMark (cs : List Char) : List Char :=
  match cs with
  | '\ufeff' :: rest => rest
  | _ => cs

/-- The text without the line breaks before it. -/
def skipBreaks (cs : List Char) : List Char :=
  cs.dropWhile fun c => c = '\n' || c = '\r'

end Crossover.Csv
