/-
Crossover.PeriodList — lists of periods as text, such as `5,10,15`.

Commas divide a list into entries. White space around an entry does not count, and blank entries are
skipped. Every other entry is a positive number of 64 bits, and there must be at least one.
-/
import Crossover.Text.Natural
import Crossover.Text.Blank

namespace Crossover

open Text

/-- Why a text is no list of periods. -/
inductive PeriodFault where
  /-- An entry is no number. -/
  | entry (text : String) (fault : NaturalFault)
  | zero
  | noEntries
  deriving DecidableEq, Repr

def PeriodFault.message : PeriodFault → String
  | entry text fault => "'" ++ text ++ "': " ++ fault.message
  | zero => "periods must be positive"
  | noEntries => "at least one value must be provided"

/-- A text that is no list of periods, and the first thing wrong with it. -/
structure BadPeriodList where
  input : String
  fault : PeriodFault
  deriving DecidableEq, Repr

def BadPeriodList.message (b : BadPeriodList) : String :=
  "Invalid range '" ++ b.input ++ "': " ++ b.fault.message

namespace PeriodList

/-- The entries of a list that are not blank, without the white space around them. -/
def entries (cs : List Char) : List (List Char) :=
  ((cs.splitOn ',').map trim).filter fun e => !e.isEmpty

def period (entry : List Char) : Except PeriodFault Nat :=
  match Natural.read entry with
  | .error fault => .error (.entry (String.ofList entry) fault)
  | .ok 0 => .error .zero
  | .ok n => .ok n

/-- The periods of some entries; the first entry that is wrong decides what is wrong. -/
def periods : List (List Char) → Except PeriodFault (List Nat)
  | [] => .ok []
  | e :: es =>
    match period e with
    | .error fault => .error fault
    | .ok n => (periods es).map (n :: ·)

def readChars (cs : List Char) : Except PeriodFault (List Nat) :=
  match entries cs with
  | [] => .error .noEntries
  | es => periods es

def read (input : String) : Except BadPeriodList (List Nat) :=
  (readChars input.toList).mapError fun fault => ⟨input, fault⟩

end PeriodList

end Crossover
