/-
Crossover.Disk.FileTree — files and directories as a value.

A tree maps places, lists of steps from its root, to files and directories; the root is always a
directory. The operations are those of a disk without links and permissions, and fail as its system
calls do. Names and paths have a longest length, counted in bytes.
-/
import Crossover.Disk.Path
import Crossover.Text.Digits

namespace Crossover

open Text

/-! ## 1. Faults -/

/-- Why a disk refuses an operation. -/
inductive DiskFault where
  | notFound
  | busy
  | alreadyExists
  | notDirectory
  | isDirectory
  | nameTooLong
  /-- A path holds the character that ends every path for the system. -/
  | nulByte
  /-- Any other refusal, with the system's number and words for it. -/
  | other (code : Nat) (words : String)
  deriving DecidableEq, Repr

def DiskFault.message : DiskFault → String
  | notFound => "No such file or directory (os error 2)"
  | busy => "Device or resource busy (os error 16)"
  | alreadyExists => "File exists (os error 17)"
  | notDirectory => "Not a directory (os error 20)"
  | isDirectory => "Is a directory (os error 21)"
  | nameTooLong => "File name too long (os error 36)"
  | nulByte => "file name contained an unexpected NUL byte"
  | other code words => words ++ " (os error " ++ Digits.text code ++ ")"

/-! ## 2. Trees -/

/-- What a path can lead to. -/
inductive Kind where
  | file
  | directory
  deriving DecidableEq, Repr

inductive Node where
  | file (text : String)
  | directory
  deriving DecidableEq, Repr

def Node.kind : Node → Kind
  | file _ => .file
  | directory => .directory

/-- A list of steps from the root of a tree. -/
abbrev Place := List String

/-- The files and directories of a disk. -/
structure FileTree where
  entries : List (Place × Node)
  deriving DecidableEq, Repr

namespace FileTree

def empty : FileTree := ⟨[]⟩

def at? (t : FileTree) (place : Place) : Option Node :=
  match place with
  | [] => some .directory
  | _ => t.entries.lookup place

def erase (t : FileTree) (place : Place) : FileTree :=
  ⟨t.entries.filter fun e => e.1 ≠ place⟩

def insert (t : FileTree) (place : Place) (node : Node) : FileTree :=
  ⟨(place, node) :: (t.erase place).entries⟩

theorem at?_insert_self (t : FileTree) {place : Place} (h : place ≠ []) (node : Node) :
    (t.insert place node).at? place = some node := by
  unfold at? insert
  split
  · contradiction
  · simp

theorem lookup_filter_of_ne {place other : Place} (h : other ≠ place)
    (entries : List (Place × Node)) :
    (entries.filter fun e => e.1 ≠ place).lookup other = entries.lookup other := by
  induction entries with
  | nil => rfl
  | cons e rest ih =>
    by_cases hp : e.1 = place
    · have hop : (other == e.1) = false := beq_eq_false_iff_ne.2 (hp ▸ h)
      rw [List.filter_cons_of_neg (by simp [hp]), ih, List.lookup_cons, hop]
    · rw [List.filter_cons_of_pos (by simp [hp]), List.lookup_cons, List.lookup_cons, ih]

/-- Putting a node at a place leaves every other place as it is. -/
theorem at?_insert_of_ne (t : FileTree) {place other : Place} (h : other ≠ place) (node : Node) :
    (t.insert place node).at? other = t.at? other := by
  unfold at? insert
  split
  · rfl
  · rw [List.lookup_cons, beq_eq_false_iff_ne.2 h]
    exact lookup_filter_of_ne h t.entries

/-! ## 3. Following steps -/

/-- The place one step from a place. -/
def enter (place : Place) (step : String) : Place :=
  if step = ".." then place.dropLast else place ++ [step]

def longestName : Nat := 255

def longestPath : Nat := 4095

/-- The place at the end of some steps. All but the last must lead to directories, and a name is
judged when the directory that would hold it has been reached. -/
def follow (t : FileTree) (place : Place) : List String → Except DiskFault Place
  | [] => .ok place
  | step :: rest =>
    if longestName < step.utf8ByteSize then .error .nameTooLong
    else if rest.isEmpty then .ok (enter place step)
    else
      match t.at? (enter place step) with
      | some .directory => t.follow (enter place step) rest
      | some (.file _) => .error .notDirectory
      | none => .error .notFound

/-- What is wrong with a path whatever the disk holds. -/
def pathFault? (p : Path) : Option DiskFault :=
  if p.text.toList.contains '\x00' then some .nulByte
  else if p.text = "" then some .notFound
  else if longestPath < p.text.utf8ByteSize then some .nameTooLong
  else none

def locate (t : FileTree) (p : Path) : Except DiskFault Place :=
  match pathFault? p with
  | some fault => .error fault
  | none => t.follow [] p.steps

/-! ## 4. Operations -/

/-- What a path leads to. -/
def inspect (t : FileTree) (p : Path) : Except DiskFault Node := do
  let place ← t.locate p
  match t.at? place with
  | none => .error .notFound
  | some (.file text) =>
    if p.endsInSlash || p.endsInDots then .error .notDirectory else .ok (.file text)
  | some .directory => .ok .directory

def read (t : FileTree) (p : Path) : Except DiskFault String := do
  match ← t.inspect p with
  | .file text => .ok text
  | .directory => .error .isDirectory

/-- The names in a directory, in no particular order. -/
def list (t : FileTree) (p : Path) : Except DiskFault (List String) := do
  let place ← t.locate p
  match t.at? place with
  | some .directory =>
    .ok (t.entries.filterMap fun e => if e.1.dropLast = place then e.1.getLast? else none)
  | some (.file _) => .error .notDirectory
  | none => .error .notFound

def makeDirectory (t : FileTree) (p : Path) : Except DiskFault FileTree := do
  let place ← t.locate p
  match t.at? place with
  | some _ => .error .alreadyExists
  | none => .ok (t.insert place .directory)

def write (t : FileTree) (p : Path) (text : String) : Except DiskFault FileTree := do
  let place ← t.locate p
  match t.at? place with
  | some .directory => .error .isDirectory
  | _ => if p.endsInSlash then .error .isDirectory else .ok (t.insert place (.file text))

/-- The tree in which a file has moved to another path, in place of any file there. -/
def rename (t : FileTree) (source target : Path) : Except DiskFault FileTree := do
  let sourcePlace ← t.locate source
  let targetPlace ← t.locate target
  if target.endsInDots then .error .busy
  else
    match t.at? sourcePlace with
    | some (.file text) =>
      if target.endsInSlash then .error .notDirectory
      else if t.at? targetPlace = some .directory then .error .isDirectory
      else .ok ((t.erase sourcePlace).insert targetPlace (.file text))
    | some .directory => .error .isDirectory
    | none => .error .notFound

end FileTree

end Crossover
