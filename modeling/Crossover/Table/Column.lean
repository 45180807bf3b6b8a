/-
Crossover.Table.Column — typed columns, read as prices and as times.

Nearly every column can be read as prices: a value that is no number is missing. Only strings, dates,
times and whole numbers can be read as times; the first row that cannot is named.
-/
import Crossover.Series
import Crossover.Numeric.Numerals

namespace Crossover

open Text Numeric

/-! ## 1. Columns -/

/-- The width and sign of a column of whole numbers. -/
inductive WholeType where
  | i32
  | i64
  | u32
  | u64
  deriving DecidableEq, Repr

/-- The unit of a column of times. -/
inductive TimeUnit where
  | milli
  | micro
  | nano
  deriving DecidableEq, Repr

def TimeUnit.perSecond : TimeUnit → Nat
  | milli => 1000
  | micro => 1000000
  | nano => 1000000000

/-- The values of a column, `none` where one is missing. -/
inductive Cells where
  | whole (type : WholeType) (values : List (Option Int))
  | double (values : List (Option Float))
  | single (values : List (Option Float))
  | boolean (values : List (Option Bool))
  | string (values : List (Option String))
  /-- A column without any value. -/
  | missing (rows : Nat)
  /-- Days since 1970-01-01. -/
  | date (values : List (Option Int))
  /-- Parts of a second since 1970-01-01. -/
  | time (unit : TimeUnit) (values : List (Option Int))
  /-- A column of another type, by what its values are as doubles. -/
  | other (typeName : String) (values : List (Option Float))
  /-- A column of another type, which as a whole cannot be made a column of doubles. -/
  | uncast (typeName : String) (rows : Nat)

namespace Cells

def rows : Cells → Nat
  | whole _ values => values.length
  | double values => values.length
  | single values => values.length
  | boolean values => values.length
  | string values => values.length
  | missing rows => rows
  | date values => values.length
  | time _ values => values.length
  | other _ values => values.length
  | uncast _ rows => rows

def typeName : Cells → String
  | whole .i32 _ => "i32"
  | whole .i64 _ => "i64"
  | whole .u32 _ => "u32"
  | whole .u64 _ => "u64"
  | double _ => "f64"
  | single _ => "f32"
  | boolean _ => "bool"
  | string _ => "str"
  | missing _ => "null"
  | date _ => "date"
  | time .milli _ => "datetime[ms]"
  | time .micro _ => "datetime[μs]"
  | time .nano _ => "datetime[ns]"
  | other typeName _ => typeName
  | uncast typeName _ => typeName

end Cells

/-! ## 2. Prices -/

/-- A string as a price: a decimal, or a word for infinity or no number in any case. -/
def priceOfText? (text : String) : Option Float :=
  let (negative, body) := Numeral.sign text.toList
  let word := String.ofList (body.map Char.toLower)
  if word = "inf" ∨ word = "infinity" then some (ofPattern negative Format.double.infinity)
  else if word = "nan" then some (0.0 / 0.0)
  else (Numeral.read? text.toList).map Numeral.toFloat

/-- The values of a column as prices, if its type allows it. Whole numbers are rounded to the nearest
double, and of dates and times the count is taken. -/
def Cells.prices? : Cells → Option (List (Option Float))
  | .whole _ values => some (values.map (·.map floatOfInt))
  | .double values => some values
  | .single values => some (values.map (·.map roundToSingle))
  | .boolean values => some (values.map (·.map fun b => if b then 1.0 else 0.0))
  | .string values => some (values.map (·.bind priceOfText?))
  | .missing rows => some (List.replicate rows none)
  | .date values => some (values.map (·.map floatOfInt))
  | .time _ values => some (values.map (·.map floatOfInt))
  | .other _ values => some values
  | .uncast _ _ => none

/-! ## 3. Faults -/

/-- Why a table holds no series. Rows are counted from zero. -/
inductive DataFault where
  | series (fault : SeriesFault)
  | closeNotFinite (price : Float) (row : Nat)
  | closeMissing (row : Nat)
  | timeMissing (row : Nat)
  | timeUnread (text : String) (row : Nat)
  | timeOutOfRange (count : Int) (row : Nat)
  | timeType (typeName : String)

def DataFault.message : DataFault → String
  | series fault => fault.message
  | closeNotFinite price row =>
    "non-finite close " ++ String.ofList (specialName price) ++ " at row " ++ Digits.text row
  | closeMissing row => "missing close at row " ++ Digits.text row
  | timeMissing row => "missing timestamp at row " ++ Digits.text row
  | timeUnread text row => "unparseable timestamp '" ++ text ++ "' at row " ++ Digits.text row
  | timeOutOfRange count row =>
    "timestamp " ++ Digits.textOfInt count ++ " out of range at row " ++ Digits.text row
  | timeType typeName => "'timestamp' column has unsupported type " ++ typeName

/-! ## 4. Rows -/

/-- Reads the values of a column from row `row` on, up to the first that cannot be read. -/
def readRows {α β ε : Type} (read : Nat → α → Except ε β) : Nat → List α → Except ε (List β)
  | _, [] => .ok []
  | row, value :: rest =>
    match read row value with
    | .error fault => .error fault
    | .ok first =>
      match readRows read (row + 1) rest with
      | .error fault => .error fault
      | .ok others => .ok (first :: others)

/-- A closing price: it must be there and finite. -/
def closeOf (row : Nat) : Option Float → Except DataFault Float
  | none => .error (.closeMissing row)
  | some price => if price.isFinite then .ok price else .error (.closeNotFinite price row)

def timeOfText (row : Nat) : Option String → Except DataFault Instant
  | none => .error (.timeMissing row)
  | some text =>
    match Instant.read? text with
    | some t => .ok t
    | none => .error (.timeUnread text row)

/-- A time given as a count, read by `instant?`. -/
def timeOfCount (instant? : Int → Option Instant) (row : Nat) :
    Option Int → Except DataFault Instant
  | none => .error (.timeMissing row)
  | some count =>
    match instant? count with
    | some t => .ok t
    | none => .error (.timeOutOfRange count row)

/-- A whole number of seconds; one beyond the signed 64-bit range counts as missing. -/
def secondsOf (count : Option Int) : Option Int :=
  count.bind fun n => if n ≤ 9223372036854775807 then some n else none

/-- The values of a column as times. Whole numbers are seconds since 1970-01-01. -/
def Cells.times : Cells → Except DataFault (List Instant)
  | .string values => readRows timeOfText 0 values
  | .time unit values => readRows (timeOfCount (Instant.ofCount? unit.perSecond)) 0 values
  | .date values => readRows (timeOfCount Instant.ofDay?) 0 values
  | .whole _ values => readRows (timeOfCount (Instant.ofCount? 1)) 0 (values.map secondsOf)
  | column => .error (.timeType column.typeName)

end Crossover
