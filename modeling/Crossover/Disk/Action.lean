/-
Crossover.Disk.Action — what a program asks of a disk, as a value.

An action is a sequence of requests, each of which may depend on the answers before it. It can be
carried out on a `FileTree` (`DiskAction.on`), which says what it means, or on a real disk. Between two
requests the disk is in a definite state, and only a request changes it.
-/
import Crossover.Disk.FileTree

namespace Crossover

/-- Requests to a disk, and a value at their end. -/
inductive DiskAction (α : Type) where
  | done (value : α)
  /-- Asks what is at a path. -/
  | inspect (p : Path) (next : Except DiskFault Kind → DiskAction α)
  | read (p : Path) (next : Except DiskFault String → DiskAction α)
  /-- Asks for the names in a directory, which come in any order. -/
  | list (p : Path) (next : Except DiskFault (List String) → DiskAction α)
  | makeDirectory (p : Path) (next : Except DiskFault Unit → DiskAction α)
  | write (p : Path) (text : String) (next : Except DiskFault Unit → DiskAction α)
  | rename (source target : Path) (next : Except DiskFault Unit → DiskAction α)

namespace DiskAction

def bind {α β : Type} : DiskAction α → (α → DiskAction β) → DiskAction β
  | done value, f => f value
  | inspect p next, f => inspect p fun r => (next r).bind f
  | read p next, f => read p fun r => (next r).bind f
  | list p next, f => list p fun r => (next r).bind f
  | makeDirectory p next, f => makeDirectory p fun r => (next r).bind f
  | write p text next, f => write p text fun r => (next r).bind f
  | rename source target next, f => rename source target fun r => (next r).bind f

instance : Monad DiskAction where
  pure := done
  bind := bind

/-- The state of the disk after a request that may change it, and the answer to the request. -/
def settle (t : FileTree) : Except DiskFault FileTree → FileTree × Except DiskFault Unit
  | .ok changed => (changed, .ok ())
  | .error fault => (t, .error fault)

/-- Carries an action out on a tree. -/
def on {α : Type} : DiskAction α → FileTree → α × FileTree
  | done value, t => (value, t)
  | inspect p next, t => (next ((t.inspect p).map Node.kind)).on t
  | read p next, t => (next (t.read p)).on t
  | list p next, t => (next (t.list p)).on t
  | makeDirectory p next, t =>
    (next (settle t (t.makeDirectory p)).2).on (settle t (t.makeDirectory p)).1
  | write p text next, t =>
    (next (settle t (t.write p text)).2).on (settle t (t.write p text)).1
  | rename source target next, t =>
    (next (settle t (t.rename source target)).2).on (settle t (t.rename source target)).1

/-- The second of two actions finds the tree as the first one leaves it. -/
theorem on_bind {α β : Type} (a : DiskAction α) (f : α → DiskAction β) (t : FileTree) :
    (a.bind f).on t = (f (a.on t).1).on (a.on t).2 := by
  induction a generalizing t with
  | done value => rfl
  | inspect p next ih => exact ih _ t
  | read p next ih => exact ih _ t
  | list p next ih => exact ih _ t
  | makeDirectory p next ih => exact ih _ _
  | write p text next ih => exact ih _ _
  | rename source target next ih => exact ih _ _

/-! ## Actions that may fail -/

/-- An action that ends in an error or a value. -/
abbrev Attempt (ε α : Type) := ExceptT ε DiskAction α

/-- An outcome that takes no disk to find. -/
def settled {ε α : Type} (outcome : Except ε α) : Attempt ε α :=
  ExceptT.mk (done outcome)

def kindOf (p : Path) : Attempt DiskFault Kind :=
  ExceptT.mk (inspect p done)

def readText (p : Path) : Attempt DiskFault String :=
  ExceptT.mk (read p done)

/-- The answer to asking for a new directory at a path. -/
def answerToMake (p : Path) : Attempt DiskFault (Except DiskFault Unit) :=
  ExceptT.lift (makeDirectory p done)

/-- The outcome of asking for a directory at a path: that it was refused does not matter if it is
there. -/
def accept (p : Path) : Except DiskFault Unit → Attempt DiskFault Unit
  | .ok () => return ()
  | .error fault => ExceptT.mk (inspect p fun
    | .ok .directory => done (.ok ())
    | _ => done (.error fault))

/-- Makes sure that there are directories at some paths, each in the one after it. The ones further
out are made only if the first cannot be made without them. -/
def ensureDirectories : List Path → Attempt DiskFault Unit
  | [] => return ()
  | p :: outer => do
    match ← answerToMake p with
    | .error .notFound =>
      ensureDirectories outer
      accept p (← answerToMake p)
    | answer => accept p answer

/-- Makes sure that the directory of a path is there. -/
def makeParents (p : Path) : Attempt DiskFault Unit :=
  ensureDirectories p.lineage.tail

/-- Writes a file as a whole: the directories on the way are made, the text is staged beside the
path, and the staged file takes the place of the path. -/
def replace (p : Path) (text : String) : Attempt DiskFault Unit := do
  makeParents p
  ExceptT.mk (write p.staging text done)
  ExceptT.mk (rename p.staging p done)

end DiskAction

end Crossover
