/-
Crossover.Main — the program on a real disk.

`DiskAction.perform` asks the system for what an action requests and hands the answers on; everything
else is decided by `Crossover.Command`.
-/
import Crossover.Command.Run
import Crossover.Command.Usage

namespace Crossover

/-! ## 1. A real disk -/

/-- The system's number for an error. -/
def systemCode : IO.Error → UInt32
  | .noFileOrDirectory _ code _ => code
  | .alreadyExists _ code _ => code
  | .inappropriateType _ code _ => code
  | .permissionDenied _ code _ => code
  | .invalidArgument _ code _ => code
  | .resourceExhausted _ code _ => code
  | .resourceBusy code _ => code
  | .otherError code _ => code
  | _ => 5

/-- The fault behind an error of the system, whose number may be given as a negative one. -/
def faultOf (e : IO.Error) : DiskFault :=
  let code := (systemCode e).toNat
  match if code < 2147483648 then code else 4294967296 - code with
  | 2 => .notFound
  | 16 => .busy
  | 17 => .alreadyExists
  | 20 => .notDirectory
  | 21 => .isDirectory
  | 36 => .nameTooLong
  | other => .other other (toString e)

/-- The result of asking the system for something. -/
def attempt (request : IO α) : IO (Except DiskFault α) := do
  try
    return .ok (← request)
  catch e =>
    return .error (faultOf e)

/-- Asks for something at a path that the system can be asked about. -/
def ask (p : Path) (request : String → IO α) : IO (Except DiskFault α) :=
  match FileTree.pathFault? p with
  | some fault => return .error fault
  | none => attempt (request p.text)

/-- Opens what is at a path. -/
def openAt (text : String) : IO Unit := do
  let _ ← IO.FS.Handle.mk text .read

/-- The kind of what is at a path. Only a directory has something in place of it. -/
def kindAt (text : String) : IO Kind := do
  openAt text
  match ← attempt (openAt (text ++ "/.")) with
  | .ok () => return .directory
  | .error _ => return .file

def namesAt (text : String) : IO (List String) := do
  let place ← IO.FS.realPath text
  return (← place.readDir).toList.map fun entry => entry.fileName

/-- Carries an action out on the disk of the system. -/
def DiskAction.perform : DiskAction α → IO α
  | .done value => return value
  | .inspect p next => do (next (← ask p kindAt)).perform
  | .read p next => do (next (← ask p fun text => IO.FS.readFile text)).perform
  | .list p next => do (next (← ask p namesAt)).perform
  | .makeDirectory p next => do (next (← ask p fun text => IO.FS.createDir text)).perform
  | .write p text next => do (next (← ask p fun place => IO.FS.writeFile place text)).perform
  | .rename source target next => do
    (next (← ask source fun place => IO.FS.rename place target.text)).perform

/-! ## 2. The program -/

/-- Carries out a request and gives the exit code. -/
def serve (r : Command.Request) : IO UInt32 := do
  match ← DiskAction.perform r.run.run with
  | .ok lines =>
    lines.forM fun line => IO.println line
    return 0
  | .error failure =>
    IO.eprintln failure.report
    return 1

/-- Does what some arguments ask for and gives the exit code. -/
def serveArguments (arguments : List String) : IO UInt32 := do
  match Command.Invocation.ofArguments arguments with
  | .request r => serve r
  | .help =>
    Command.usageLines.forM fun line => IO.println line
    return 0
  | .version =>
    IO.println Command.versionLine
    return 0
  | .rejected =>
    Command.usageLines.forM fun line => IO.eprintln line
    return 2

end Crossover

def main (arguments : List String) : IO UInt32 :=
  Crossover.serveArguments arguments
