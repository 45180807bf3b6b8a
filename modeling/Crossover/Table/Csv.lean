/-
Crossover.Table.Csv — tables as comma-separated text.

The first line names the columns, and the lines after it say what type each has. All rows are then
read as these types say: a value may be missing, but one of another type makes the text no table.
Several texts with the same columns make one table, of types wide enough for all of them.
-/
import Crossover.Table.Basic
import Crossover.Table.Field
import Crossover.Text.DecimalDigit

namespace Crossover.Csv

open Crossover.Text Crossover.Numeric

/-! ## 1. Types -/

inductive CellType where
  | boolean
  | whole
  | double
  | string
  deriving DecidableEq, Repr

/-- Whether a text is a run of one or more digits of any script. -/
def isDigits (cs : List Char) : Bool :=
  !cs.isEmpty && cs.all isDecimalDigit

/-- Whether a text is a whole number: digits, and perhaps a minus sign. -/
def isWhole (cs : List Char) : Bool :=
  match cs with
  | '-' :: rest => isDigits rest
  | _ => isDigits cs

/-- Whether a text is an exponent: `e`, perhaps a sign, and digits. -/
def isExponent (cs : List Char) : Bool :=
  match cs with
  | c :: rest => (c = 'e' || c = 'E') && isDigits (Numeral.sign rest).2
  | [] => false

/-- Whether a text has a point or an exponent and is a number, or names infinity or no number. -/
def isDouble (cs : List Char) : Bool :=
  let body := (Numeral.sign cs).2
  let whole := body.takeWhile isDecimalDigit
  body = "inf".toList || body = "NaN".toList ||
    match body.dropWhile isDecimalDigit with
    | '.' :: more =>
      let tail := more.dropWhile isDecimalDigit
      if (more.takeWhile isDecimalDigit).isEmpty then !whole.isEmpty && tail.isEmpty
      else tail.isEmpty || isExponent tail
    | tail => !whole.isEmpty && isExponent tail

/-- A character without its case. The long s is an s. -/
def foldCase (c : Char) : Char :=
  if c = 'ſ' then 's' else c.toLower

/-- Whether a text is a truth value in any case. -/
def isBoolean (cs : List Char) : Bool :=
  let word := cs.map foldCase
  word = "true".toList || word = "false".toList

def CellType.ofText (cs : List Char) : CellType :=
  if isBoolean cs then boolean
  else if isDouble cs then double
  else if isWhole cs then whole
  else string

/-- The type of two texts of one column: whole numbers and doubles are doubles, any other mixture is
a string. -/
def CellType.join (a b : CellType) : CellType :=
  if a = b then a
  else if (a = whole ∧ b = double) ∨ (a = double ∧ b = whole) then double
  else string

/-- The type of a column, from some of its fields; a string if all of them are empty. -/
def CellType.ofFields (fields : List Field) : CellType :=
  match (fields.filter fun f => !f.isEmpty).map fun f => ofText f.bare with
  | [] => string
  | first :: rest => rest.foldl join first

def CellType.rank : CellType → Nat
  | boolean => 0
  | whole => 1
  | double => 2
  | string => 3

def CellType.widen (a b : CellType) : CellType :=
  if a.rank < b.rank then b else a

/-! ## 2. Schemas -/

/-- The names and types of the columns, in order, each name once. -/
abbrev Schema := List (String × CellType)

namespace Schema

/-- The schema with a further column. If there is one of its name already, that one takes its
type. -/
def insert (s : Schema) (name : String) (type : CellType) : Schema :=
  if s.any fun c => c.1 == name then
    s.map fun c => if c.1 == name then (name, type) else c
  else s ++ [(name, type)]

/-- The names of the columns. A name that occurred `k` times before gets a number, from zero. -/
def columnNames (header : List String) : List String :=
  header.zipIdx.map fun (name, i) =>
    match ((header.take i).filter (· == name)).length with
    | 0 => name
    | k + 1 => name ++ "_duplicated_" ++ Digits.text k

/-- How many lines after the header decide on the types. -/
def sampleSize : Nat := 1024

/-- The schema of a text that holds more than line breaks. Blank lines say nothing about types. -/
def ofText? (cs : List Char) : Option Schema :=
  match skipBreaks (skipMark cs) with
  | [] => none
  | start =>
    let (header, body) := cutLine start
    let sample := (firstLines sampleSize body).filter fun line => !line.isEmpty
    let rows := sample.map fieldsOfLine
    let names := columnNames ((fieldsOfLine header).map fun f => String.ofList f.bare)
    some (names.zipIdx.foldl (fun s (name, i) =>
      s.insert name (CellType.ofFields (rows.filterMap fun row => row[i]?))) [])

/-- The schema for two texts, if their columns have the same names in the same order. -/
def merge? (a b : Schema) : Option Schema :=
  if a.map Prod.fst = b.map Prod.fst then
    some (a.zipWith (fun c d => (c.1, c.2.widen d.2)) b)
  else none

/-- The schema for one or more texts. -/
def mergeAll? : List Schema → Option Schema
  | [] => none
  | first :: rest => rest.foldlM merge? first

end Schema

/-! ## 3. Values -/

/-- A field as a number, by a reader of its text. A text that cannot be read with white space before
it is read without, and if nothing is left, the number is missing. -/
def number? (read? : List Char → Option α) (f : Field) : Option (Option α) :=
  if f.isEmpty then some none
  else
    match read? f.bare with
    | some n => some (some n)
    | none =>
      match f.bare.dropWhile fun c => c = ' ' || c = '\t' with
      | [] => some none
      | rest => (read? rest).map some

def boolean? (f : Field) : Option (Option Bool) :=
  if f.isEmpty || f.bare.isEmpty then some none
  else
    let word := f.bare.map Char.toLower
    if word = "true".toList then some (some true)
    else if word = "false".toList then some (some false)
    else none

def string? (f : Field) : Option (Option String) :=
  if f.isEmpty then some none else f.text?.map fun cs => some (String.ofList cs)

/-- A whole number of 64 bits. -/
def readWhole? (cs : List Char) : Option Int :=
  let (negative, body) := Numeral.sign cs
  if body.isEmpty || !body.all Char.isDigit then none
  else
    let n : Int := if negative then -(Digits.value body : Int) else Digits.value body
    if -9223372036854775808 ≤ n ∧ n ≤ 9223372036854775807 then some n else none

/-- The values of a column, if each follows its type. -/
def cells? (fields : List Field) : CellType → Option Cells
  | .boolean => (fields.mapM boolean?).map .boolean
  | .whole => (fields.mapM (number? readWhole?)).map (.whole .i64)
  | .double => (fields.mapM (number? fun cs => priceOfText? (String.ofList cs))).map .double
  | .string => (fields.mapM string?).map .string

/-! ## 4. Tables -/

/-- The text after the header. Line breaks before the header are skipped only if there is more than
one column; else the first of them ends the header. -/
def bodyOf (width : Nat) (cs : List Char) : List Char :=
  let start := skipMark cs
  (cutLine (if 1 < width then skipBreaks start else start)).2

/-- A row filled up with empty fields. A row longer than the header makes no table. -/
def fill? (width : Nat) (row : List Field) : Option (List Field) :=
  if width < row.length then none
  else some ((row.map Field.dropReturn).rightpad width ⟨[]⟩)

/-- The fields after the last line break as rows: one row, or none if there are no fields. A comma
at the end of a full row ends it. -/
def lastRow (width : Nat) (pending : List Field) : List (List Field) :=
  if pending.isEmpty then []
  else if pending.length = width + 1 ∧ pending.getLast? = some ⟨[]⟩ then [pending.dropLast]
  else [pending]

/-- The rows of a text, all of one width. -/
def rows? (width : Nat) (cs : List Char) : Option (List (List Field)) :=
  let rows := Rows.ofText (bodyOf width cs)
  (rows.ended ++ lastRow width rows.pending).mapM (fill? width)

/-- Reads some texts as one table, the rows of each after those of the texts before it. -/
def readAll? (texts : List String) : Option Table := do
  let schema ← Schema.mergeAll? (← texts.mapM fun text => Schema.ofText? text.toList)
  let rows ← texts.mapM fun text => rows? schema.length text.toList
  let columns ← schema.zipIdx.mapM fun (column, i) => do
    let cells ← cells? (rows.flatten.filterMap fun row => row[i]?) column.2
    return Column.mk column.1 cells
  Table.of? columns

def read? (text : String) : Option Table :=
  readAll? [text]

end Crossover.Csv
