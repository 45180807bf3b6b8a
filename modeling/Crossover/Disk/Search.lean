/-
Crossover.Disk.Search — the files that a path stands for.

A directory stands for the files in it, nearer ones first, and a pattern for the files that fit it.
What a search finds is in order of names, whatever order the disk gives them in. Files without text
are passed over.
-/
import Crossover.Disk.Action
import Crossover.Disk.Pattern

namespace Crossover.Search

open DiskAction

/-! ## 1. Names in order -/

/-- Puts a name in its place among names in order. -/
def insertName (name : String) : List String → List String
  | [] => [name]
  | other :: rest => if name < other then name :: other :: rest else other :: insertName name rest

/-- The paths in a directory, in order of names; none if there is no directory. -/
def children (dir : Path) : DiskAction (List Path) :=
  list dir fun
    | .ok names => done ((names.foldr insertName []).map dir.child)
    | .error _ => done []

/-- What an action finds for each of some paths, in their order. -/
def gather {α : Type} (find : Path → DiskAction (List α)) : List Path → DiskAction (List α)
  | [] => return []
  | p :: rest => do return (← find p) ++ (← gather find rest)

def withKinds (paths : List Path) : DiskAction (List (Path × Kind)) :=
  gather (fun p => inspect p fun
    | .ok kind => done [(p, kind)]
    | .error _ => done []) paths

def ofKind (kind : Kind) (found : List (Path × Kind)) : List Path :=
  (found.filter fun e => e.2 = kind).map Prod.fst

/-! ## 2. Directories -/

/-- How deep a search goes. No path is long enough to lead deeper. -/
def deepest : Nat := FileTree.longestPath

/-- The files in some directories, down to a depth: those in the directories themselves before those
in the directories in them. -/
def filesIn : Nat → List Path → DiskAction (List Path)
  | 0, _ => return []
  | _, [] => return []
  | depth + 1, dir :: dirs => do
    let found ← withKinds (← gather children (dir :: dirs))
    return ofKind .file found ++ (← filesIn depth (ofKind .directory found))

/-! ## 3. Patterns -/

/-- The paths below a directory that a test finds, down to a depth: each path before those in it. -/
def below (find : Path → DiskAction (List Path)) : Nat → Path → DiskAction (List Path)
  | 0, _ => return []
  | depth + 1, dir => do
    gather (fun p => do return (← find p) ++ (← below find depth p)) (← children dir)

/-- The path itself if there is something at it. -/
def existing (p : Path) : DiskAction (List Path) := do
  return (← withKinds [p]).map Prod.fst

def nameFits (pattern : NamePattern) (p : Path) : Bool :=
  match p.fileName? with
  | some name => pattern.fits name.toList
  | none => false

/-- The paths in a directory whose names fit a pattern. Only a pattern that several names fit needs a
look into the directory. -/
def fittingChildren (pattern : NamePattern) (dir : Path) : DiskAction (List Path) :=
  match pattern.literal? with
  | some name => existing (dir.child name)
  | none => do return (← children dir).filter (nameFits pattern)

/-- The paths from a directory on that fit some steps. -/
def fitting : List StepPattern → Path → DiskAction (List Path)
  | [], p => return [p]
  | .name pattern :: rest, dir => do gather (fitting rest) (← fittingChildren pattern dir)
  | .anyDepth :: .name pattern :: rest, dir =>
    below (fun p => if nameFits pattern p then fitting rest p else return []) deepest dir
  | .anyDepth :: rest, dir => fitting rest dir

/-- The directory that the steps of a path start from. -/
def origin (p : Path) : Path :=
  if p.text.toList.head? == some '/' then ⟨"/"⟩ else ⟨"."⟩

/-! ## 4. Files -/

/-- The texts of some files that have one, with their paths. -/
def textsOf (paths : List Path) : DiskAction (List (Path × String)) :=
  gather (fun p => read p fun
    | .ok text => done (if text = "" then [] else [(p, text)])
    | .error _ => done []) paths

def haveOneEnding (paths : List Path) : Bool :=
  match paths.map fun p => p.extension?.getD "" with
  | [] => true
  | first :: rest => rest.all (· == first)

/-- The texts of the files in a directory. Names with several endings are refused, unless the path
could be a pattern. -/
def textsIn? (dir : Path) : DiskAction (Option (List String)) := do
  let found ← textsOf (← filesIn deepest [dir])
  return if dir.isPattern || haveOneEnding (found.map Prod.fst) then some (found.map Prod.snd)
    else none

def textsFitting? (p : Path) : DiskAction (Option (List String)) :=
  match p.stepPatterns? with
  | none => return none
  | some steps => do
    let found ← withKinds (← fitting steps (origin p))
    return some ((← textsOf (ofKind .file found)).map Prod.snd)

/-- The texts that a path to something of a kind stands for. -/
def textsFor? (p : Path) : Kind → DiskAction (Option (List String))
  | .directory => textsIn? p
  | .file =>
    if p.isPattern then textsFitting? p
    else read p fun r => done (r.toOption.map fun text => [text])

end Crossover.Search
