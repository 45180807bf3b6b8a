/-
Crossover.Disk.Path — paths as text and as steps.

A path keeps the text it was given, for messages; its steps are the names between slashes, those
that stay in place left out.
-/
namespace Crossover

structure Path where
  text : String
  deriving DecidableEq, Repr

namespace Path

/-- The steps from one directory to the next; two points step back up. -/
def steps (p : Path) : List String :=
  ((p.text.toList.splitOn '/').map String.ofList).filter fun s => s ≠ "" ∧ s ≠ "."

/-- The path itself and the directories on the way to it, the innermost first. -/
def lineage (p : Path) : List Path :=
  let root := if p.text.toList.head? == some '/' then "/" else ""
  (List.range p.steps.length).map fun k => ⟨root ++ "/".intercalate (p.steps.take (p.steps.length - k))⟩

def child (p : Path) (name : String) : Path :=
  ⟨p.text ++ "/" ++ name⟩

/-- Whether the path ends in a slash, and so can only mean a directory. -/
def endsInSlash (p : Path) : Bool :=
  p.text.toList.getLast? == some '/'

/-- Whether the path ends in a step that stays in place or goes up. -/
def endsInDots (p : Path) : Bool :=
  match ((p.text.toList.splitOn '/').filter fun s => s ≠ []).getLast? with
  | some s => s == ['.'] || s == ['.', '.']
  | none => false

/-- The file name: the last step, unless it goes up. -/
def fileName? (p : Path) : Option String :=
  match p.steps.getLast? with
  | some name => if name = ".." then none else some name
  | none => none

/-- What follows the last point of the file name. A point at its start does not count. -/
def extension? (p : Path) : Option String :=
  match p.fileName? with
  | none => none
  | some name =>
    let reversed := name.toList.reverse
    let ending := reversed.takeWhile (· ≠ '.')
    let stem := (reversed.dropWhile (· ≠ '.')).drop 1
    if stem.isEmpty then none else some (String.ofList ending.reverse)

def extended (p : Path) (ending : String) : Path :=
  ⟨p.text ++ ending⟩

/-- Where a file is written before it takes the place of the path. -/
def staging (p : Path) : Path :=
  p.extended ".tmp"

end Path

end Crossover
