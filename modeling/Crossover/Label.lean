/-
Crossover.Label — what names a bar of a series.

A bar is named by its position, or by its time where the series has times. Positions come before
times, positions in their own order and times in theirs.
-/
import Crossover.Calendar.Layout
import Crossover.Json.Value

namespace Crossover

open Text

/-- The name of a bar. -/
inductive Label where
  | position (n : Nat)
  | time (t : Instant)
  deriving DecidableEq

namespace Label

def Before : Label → Label → Prop
  | position m, position n => m < n
  | position _, time _ => True
  | time _, position _ => False
  | time s, time t => s.Before t

instance : (a b : Label) → Decidable (Before a b)
  | position m, position n => inferInstanceAs (Decidable (m < n))
  | position _, time _ => isTrue trivial
  | time _, position _ => isFalse id
  | time s, time t => inferInstanceAs (Decidable (s.Before t))

/-- The labels in ascending order, equal ones in the order given. -/
def sort (labels : List Label) : List Label :=
  labels.mergeSort fun a b => !decide (Before b a)

def text : Label → String
  | position n => Digits.text n
  | time t => t.text

/-- A label in a data file: a number, or a string. -/
def toJson : Label → Json
  | position n => Json.ofNat n
  | time t => .string t.isoText

/-- Reads a label of a data file. A number is a position if it is written with digits alone and
fits 64 bits. -/
def ofJson? : Json → Option Label
  | .number literal =>
    let cs := literal.toList
    if cs.all Char.isDigit && Digits.value cs < 18446744073709551616 then
      some (position (Digits.value cs))
    else none
  | .string text => (Instant.readData? text).map time
  | _ => none

end Label

end Crossover
