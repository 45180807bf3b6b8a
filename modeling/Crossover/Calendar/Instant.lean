/-
Crossover.Calendar.Instant — moments of a bar, to the nanosecond.

An instant is a count of seconds from 1970-01-01 00:00:00 and a count of nanoseconds. The type holds
exactly the instants of the years -262143 to 262142. Nanoseconds from a billion on are a leap second
behind the second that is counted, and before the next one. Clocks show a leap second as the second
after its own: at the end of a minute that is second sixty, elsewhere it is shown as the next second
is. Instants are compared by seconds, then by nanoseconds.
-/
import Crossover.Calendar.Civil
import Crossover.Text.Digits

namespace Crossover

open Text

/-! ## 1. Instants -/

/-- The first second of the year -262143. -/
def Instant.earliest : Int := -8334601228800

/-- The last second of the year 262142. -/
def Instant.latest : Int := 8210266876799

def Instant.billion : Nat := 1000000000

/-- A moment of the calendar. -/
structure Instant where
  /-- Seconds from 1970-01-01 00:00:00. -/
  second : Int
  /-- Nanoseconds; a billion and more in a leap second. -/
  nano : Nat
  inCalendar : Instant.earliest ≤ second ∧ second ≤ Instant.latest
  inSecond : nano < 2 * Instant.billion
  deriving DecidableEq

namespace Instant

/-- The instant of two counts, if the calendar has it. -/
def of? (second : Int) (nano : Nat) : Option Instant :=
  if h : (earliest ≤ second ∧ second ≤ latest) ∧ nano < 2 * billion then
    some ⟨second, nano, h.1, h.2⟩
  else none

theorem of?_self (t : Instant) : of? t.second t.nano = some t := by
  simp [of?, t.inCalendar, t.inSecond]

def Before (a b : Instant) : Prop :=
  a.second < b.second ∨ (a.second = b.second ∧ a.nano < b.nano)

instance (a b : Instant) : Decidable (Before a b) :=
  inferInstanceAs (Decidable (_ ∨ _))

theorem Before.trans {a b c : Instant} (h : Before a b) (k : Before b c) : Before a c := by
  unfold Before at *
  omega

theorem Before.irrefl (a : Instant) : ¬ Before a a := by
  unfold Before
  omega

/-! ## 2. Counts since 1970 -/

/-- The instant of a whole number of parts of a second since 1970-01-01, rounded down to a second
and the rest kept; `parts` divides a billion. -/
def ofCount? (parts : Nat) (count : Int) : Option Instant :=
  of? (count / parts) ((count % parts).toNat * (billion / parts))

/-- Midnight at the start of a day counted from 1970-01-01. Days are counted in 32 bits; those that
count too far for 32 bits from the year 1 on are none of the calendar. -/
def ofDay? (day : Int) : Option Instant :=
  of? (day * 86400) 0

/-! ## 3. Text -/

def civil (t : Instant) : Civil :=
  Civil.ofDay (t.second / 86400)

/-- The seconds since midnight. -/
def ofDaySecond (t : Instant) : Nat :=
  (t.second % 86400).toNat

/-- The second of the minute as clocks show it: one more in a leap second, sixty at the end of a
minute. -/
def shownSecond (t : Instant) : Nat :=
  if t.nano < billion then t.ofDaySecond % 60 else t.ofDaySecond % 60 + 1

/-- The nanoseconds within the second shown. -/
def shownNano (t : Instant) : Nat :=
  t.nano % billion

/-- A year: four digits from 0 to 9999, else a sign and at least four digits. -/
def yearChars (year : Int) : List Char :=
  let digits := Digits.padded 4 year.natAbs
  if year < 0 then '-' :: digits else if 9999 < year then '+' :: digits else digits

/-- A fraction of a second: nothing if it is zero, else the fewest of three, six and nine digits
that are exact. -/
def fractionChars (nano : Nat) : List Char :=
  if nano = 0 then []
  else if nano % 1000000 = 0 then '.' :: Digits.padded 3 (nano / 1000000)
  else if nano % 1000 = 0 then '.' :: Digits.padded 6 (nano / 1000)
  else '.' :: Digits.padded 9 nano

/-- The date: year, month and day with hyphens between them. -/
def dateChars (c : Civil) : List Char :=
  yearChars c.year ++ '-' :: Digits.padded 2 c.month ++ '-' :: Digits.padded 2 c.day

/-- The time of day: hours, minutes and seconds with colons between them, and a fraction. -/
def clockChars (t : Instant) : List Char :=
  Digits.padded 2 (t.ofDaySecond / 3600) ++ ':' ::
    Digits.padded 2 (t.ofDaySecond / 60 % 60) ++ ':' ::
    Digits.padded 2 t.shownSecond ++ fractionChars t.shownNano

def chars (separator : Char) (t : Instant) : List Char :=
  dateChars t.civil ++ separator :: t.clockChars

/-- The text of an instant as reports show it. -/
def text (t : Instant) : String :=
  String.ofList (t.chars ' ')

/-- The text of an instant in data files, with a `T` between date and time. -/
def isoText (t : Instant) : String :=
  String.ofList (t.chars 'T')

end Instant

end Crossover
