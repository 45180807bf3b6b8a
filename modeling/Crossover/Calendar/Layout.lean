/-
Crossover.Calendar.Layout — the layouts in which an instant may be written.

A layout is a list of items, read one after the other over a text; what they find is collected in a
`Reading`, which stands for at most one instant. `Instant.read?` tries six layouts in order and
accepts the first that covers the whole text. All layouts of bars agree where several of them fit.
-/
import Crossover.Calendar.Instant
import Crossover.Text.Blank

namespace Crossover

open Text

/-! ## 1. What a text says -/

/-- The numbers found in a text; the parts of the clock are zero where a text has none. -/
structure Reading where
  year : Int := 0
  month : Nat := 0
  day : Nat := 0
  hour : Nat := 0
  minute : Nat := 0
  second : Nat := 0
  nano : Nat := 0
  /-- Minutes by which the clock read is ahead of universal time. -/
  offset : Int := 0
  deriving Repr, DecidableEq

namespace Reading

/-- The instant that a reading stands for, if its date is one of the calendar and its clock shows a
time of day. Second sixty of any minute is a leap second. -/
def instant? (r : Reading) : Option Instant :=
  match Civil.day? ⟨r.year, r.month, r.day⟩ with
  | none => none
  | some day =>
    if r.hour < 24 ∧ r.minute < 60 ∧ r.second ≤ 60 then
      let minute := day * 86400 + r.hour * 3600 + r.minute * 60 - r.offset * 60
      if r.second = 60 then Instant.of? (minute + 59) (Instant.billion + r.nano)
      else Instant.of? (minute + r.second) r.nano
    else none

end Reading

/-! ## 2. Items -/

/-- A number of a reading that is written with digits only. -/
inductive Part where
  | year
  | month
  | day
  | hour
  | minute
  | second
  deriving DecidableEq, Repr

def Reading.enter (r : Reading) : Part → Nat → Reading
  | .year, n => { r with year := n }
  | .month, n => { r with month := n }
  | .day, n => { r with day := n }
  | .hour, n => { r with hour := n }
  | .minute, n => { r with minute := n }
  | .second, n => { r with second := n }

/-- One step of a layout. -/
inductive Item where
  /-- Digits, as many as there are from `least` to `most`. -/
  | digits (part : Part) (least most : Nat)
  /-- A year: a sign and any number of digits, or up to four digits. -/
  | signedYear
  /-- White space, possibly none. -/
  | gap
  /-- One of the given characters. -/
  | oneOf (marks : List Char)
  /-- Nothing, or a point and digits; those past the ninth do not count. -/
  | fraction
  /-- An offset from universal time. -/
  | zone
  deriving DecidableEq, Repr

abbrev Layout := List Item

namespace Item

/-- A run of at least `least` and at most `most` digits, and what follows it. -/
def number? (least most : Nat) (cs : List Char) : Option (Nat × List Char) :=
  let (run, rest) := Digits.takeAtMost most cs
  if run.length < least then none else some (Digits.value run, rest)

/-- The value of the first nine digits of a fraction, in nanoseconds. -/
def nanos (digits : List Char) : Nat :=
  Digits.value ((digits.take 9).rightpad 9 '0')

/-- Hours and minutes of an offset after its sign, in minutes. -/
def offset? (cs : List Char) : Option (Int × List Char) :=
  match number? 2 2 cs with
  | some (hours, ':' :: rest) =>
    match number? 2 2 rest with
    | some (minutes, left) =>
      if hours < 24 ∧ minutes < 60 then some ((hours * 60 + minutes : Nat), left) else none
    | none => none
  | _ => none

def read? (r : Reading) (cs : List Char) : Item → Option (Reading × List Char)
  | digits part least most =>
    (number? least most cs).map fun (n, rest) => (r.enter part n, rest)
  | signedYear =>
    match cs with
    | '-' :: more =>
      (number? 1 more.length more).map fun (n, rest) => ({ r with year := -(n : Int) }, rest)
    | '+' :: more =>
      (number? 1 more.length more).map fun (n, rest) => ({ r with year := n }, rest)
    | _ => (number? 1 4 cs).map fun (n, rest) => ({ r with year := n }, rest)
  | gap => some (r, skipBlanks cs)
  | oneOf marks =>
    match cs with
    | c :: rest => if marks.contains c then some (r, rest) else none
    | [] => none
  | fraction =>
    match cs with
    | '.' :: more =>
      let (run, rest) := Digits.takeAll more
      if run.isEmpty then none else some ({ r with nano := nanos run }, rest)
    | _ => some (r, cs)
  | zone =>
    match cs with
    | 'Z' :: rest => some ({ r with offset := 0 }, rest)
    | 'z' :: rest => some ({ r with offset := 0 }, rest)
    | '+' :: more => (offset? more).map fun (n, rest) => ({ r with offset := n }, rest)
    | '-' :: more => (offset? more).map fun (n, rest) => ({ r with offset := -n }, rest)
    | '\u2212' :: more => (offset? more).map fun (n, rest) => ({ r with offset := -n }, rest)
    | _ => none

end Item

namespace Layout

/-- Reads the items of a layout in order, and gives what they leave. -/
def run? (r : Reading) (cs : List Char) : Layout → Option (Reading × List Char)
  | [] => some (r, cs)
  | item :: items =>
    match item.read? r cs with
    | some (next, rest) => run? next rest items
    | none => none

/-- The instant of a text that a layout covers as a whole. -/
def instant? (layout : Layout) (cs : List Char) : Option Instant :=
  match run? {} cs layout with
  | some (r, []) => r.instant?
  | _ => none

/-! ## 3. The layouts of bars -/

/-- A number of a loose layout: white space and up to two digits. -/
def loose (part : Part) : Layout :=
  [.gap, .digits part 1 2]

def mark (c : Char) : Item :=
  .oneOf [c]

def looseDate : Layout :=
  [.gap, .signedYear, mark '-'] ++ loose .month ++ mark '-' :: loose .day

def looseClock : Layout :=
  loose .hour ++ mark ':' :: loose .minute ++ mark ':' :: loose .second

/-- The internet format: every number at its full width, and an offset. -/
def internet : Layout :=
  [.digits .year 4 4, mark '-', .digits .month 2 2, mark '-', .digits .day 2 2,
   .oneOf ['T', 't', ' '], .digits .hour 2 2, mark ':', .digits .minute 2 2, mark ':',
   .digits .second 2 2, .fraction, .zone]

/-- A loose date and time, white space between them. -/
def spaced : Layout :=
  looseDate ++ .gap :: looseClock

/-- A loose date and time, the letter `T` between them. -/
def lettered : Layout :=
  looseDate ++ mark 'T' :: looseClock

/-- The layouts of a bar's time, in the order in which they are tried. A date alone stands for its
midnight. -/
def bars : List Layout :=
  [internet, spaced ++ [.fraction], spaced, lettered ++ [.fraction], lettered, looseDate]

/-- The layout of an instant in data files; white space may stand before every item and at the
end. -/
def data : Layout :=
  [.gap, .signedYear, .gap, mark '-'] ++ loose .month ++ [.gap, mark '-'] ++ loose .day ++
    [.gap, mark 'T'] ++ loose .hour ++ [.gap, mark ':'] ++ loose .minute ++ [.gap, mark ':'] ++
    loose .second ++ [.fraction, .gap]

end Layout

namespace Instant

/-- Reads the time of a bar, white space around it aside. -/
def read? (text : String) : Option Instant :=
  Layout.bars.findSome? (Layout.instant? · (trim text.toList))

def readData? (text : String) : Option Instant :=
  Layout.data.instant? text.toList

end Instant

end Crossover
