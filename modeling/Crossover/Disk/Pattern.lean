/-
Crossover.Disk.Pattern — patterns for names and paths.

In a name, `?` stands for one character, `*` for any number of them, and brackets for one character
of a set, or outside it after an exclamation mark. A path is a pattern if it holds `*`, `?` or `[`;
a step `**` then stands for any number of directories.
-/
import Crossover.Disk.Path

namespace Crossover

/-! ## 1. Names -/

/-- What a pattern says about the next characters of a name. -/
inductive NamePart where
  | char (c : Char)
  | any
  | run
  /-- A character between the ends of one of some ranges. -/
  | within (ranges : List (Char × Char))
  | outside (ranges : List (Char × Char))
  deriving DecidableEq, Repr

namespace NamePart

/-- Whether a character lies in one of some ranges, ends included. -/
def covers (ranges : List (Char × Char)) (c : Char) : Bool :=
  ranges.any fun r => r.1 ≤ c && c ≤ r.2

/-- Whether a part that stands for one character stands for this one. -/
def accepts (c : Char) : NamePart → Bool
  | char d => c = d
  | any => true
  | run => false
  | within ranges => covers ranges c
  | outside ranges => !covers ranges c

/-- The character of a part that stands for one alone. -/
def character? : NamePart → Option Char
  | char c => some c
  | _ => none

/-- The ranges of a set as it is written between brackets. A character by itself is a range. -/
def ranges : List Char → List (Char × Char)
  | a :: '-' :: b :: rest => (a, b) :: ranges rest
  | a :: rest => (a, a) :: ranges rest
  | [] => []

end NamePart

abbrev NamePattern := List NamePart

namespace NamePattern

/-- Where the reading of a pattern is: outside brackets, just behind one that opened, or behind some
characters of a set, the latest first. -/
inductive Mode where
  | free
  | opened
  | set (negated : Bool) (content : List Char)

/-- Reads a pattern from a mode on. A set has at least one character, which may be a bracket; one that
is not closed and two stars side by side make no pattern. -/
def readFrom? : Mode → List Char → Option NamePattern
  | .free, [] => some []
  | .free, '?' :: rest => (readFrom? .free rest).map (.any :: ·)
  | .free, '*' :: '*' :: _ => none
  | .free, '*' :: rest => (readFrom? .free rest).map (.run :: ·)
  | .free, '[' :: rest => readFrom? .opened rest
  | .free, c :: rest => (readFrom? .free rest).map (.char c :: ·)
  | .opened, '!' :: rest => readFrom? (.set true []) rest
  | .opened, c :: rest => readFrom? (.set false [c]) rest
  | .set negated [], c :: rest => readFrom? (.set negated [c]) rest
  | .set negated content, ']' :: rest =>
    let ranges := NamePart.ranges content.reverse
    (readFrom? .free rest).map ((if negated then .outside ranges else .within ranges) :: ·)
  | .set negated content, c :: rest => readFrom? (.set negated (c :: content)) rest
  | _, [] => none

def read? (name : String) : Option NamePattern :=
  readFrom? .free name.toList

def fits : NamePattern → List Char → Bool
  | [], cs => cs.isEmpty
  | .run :: rest, cs => (List.range (cs.length + 1)).any fun n => fits rest (cs.drop n)
  | part :: rest, c :: cs => part.accepts c && fits rest cs
  | _ :: _, [] => false

/-- The one name that fits a pattern of characters alone. -/
def literal? (p : NamePattern) : Option String :=
  (p.mapM NamePart.character?).map String.ofList

end NamePattern

/-! ## 2. Paths -/

inductive StepPattern where
  | name (pattern : NamePattern)
  /-- Any number of directories, one in the other. -/
  | anyDepth
  deriving DecidableEq, Repr

def StepPattern.read? (step : String) : Option StepPattern :=
  if step = "**" then some anyDepth else (NamePattern.read? step).map name

/-- Whether a path stands for all that fit it. -/
def Path.isPattern (p : Path) : Bool :=
  p.text.toList.any fun c => c = '*' || c = '?' || c = '['

def Path.stepPatterns? (p : Path) : Option (List StepPattern) :=
  p.steps.mapM StepPattern.read?

end Crossover
