/-
Crossover.Command.Arguments — what a list of arguments asks for.

A command is named by the first argument; the others are options with values, in any order, each at
most once: `--name value`, `--name=value`, `-n value`, `-nvalue` or `-n=value`. A separate value must
not look like an option. Arguments are read from left to right, so that a request for help counts
unless something before it is wrong.
-/
import Crossover.Disk.Path
import Crossover.Text.Natural

namespace Crossover.Command

open Text

/-! ## 1. Commands -/

/-- Values that replace settings. -/
structure Overrides where
  symbol : Option String
  train : Option Nat
  test : Option Nat
  fast : Option String
  slow : Option String
  summaryPath : Option Path
  strategyPath : Option Path
  deriving DecidableEq, Repr

inductive Request where
  /-- Optimize over the prices of a file, with the settings of another. -/
  | optimize (data : Path) (settings : Option Path) (overrides : Overrides)
  /-- Score one pair on the prices of a file. -/
  | score (data : Path) (fast slow : Nat)
  deriving DecidableEq, Repr

/-- What a list of arguments asks for. -/
inductive Invocation where
  | request (r : Request)
  | help
  | version
  | rejected
  deriving DecidableEq, Repr

/-! ## 2. Options -/

/-- What the value of an option is. -/
inductive ValueKind where
  | text
  | path
  | natural
  deriving DecidableEq, Repr

def natural? (value : String) : Option Nat :=
  (Natural.read value.toList).toOption

/-- Whether a value is one of its kind. A path must not be empty. -/
def ValueKind.accepts : ValueKind → String → Bool
  | text, _ => true
  | path, value => value ≠ ""
  | natural, value => (natural? value).isSome

structure OptionSpec where
  name : String
  letter : Option Char
  kind : ValueKind
  deriving DecidableEq, Repr

def optimizeOptions : List OptionSpec :=
  [⟨"data", some 'd', .path⟩, ⟨"config", some 'c', .path⟩, ⟨"symbol", none, .text⟩,
    ⟨"train-window", none, .natural⟩, ⟨"test-window", none, .natural⟩, ⟨"fast-range", none, .text⟩,
    ⟨"slow-range", none, .text⟩, ⟨"summary-csv", none, .path⟩, ⟨"config-output", none, .path⟩]

def scoreOptions : List OptionSpec :=
  [⟨"data", some 'd', .path⟩, ⟨"fast", none, .natural⟩, ⟨"slow", none, .natural⟩]

/-! ## 3. Single arguments -/

/-- What one argument says. -/
inductive Token where
  | help
  /-- An option together with its value. -/
  | attached (o : OptionSpec) (value : String)
  /-- An option whose value is the next argument. -/
  | awaiting (o : OptionSpec)
  | separator
  /-- No option of the command. -/
  | stray

/-- What is said by an argument that begins with two dashes, given without them. -/
def longToken (options : List OptionSpec) (body : List Char) : Token :=
  let name := String.ofList (body.takeWhile (· ≠ '='))
  match options.find? fun o => o.name == name, body.dropWhile (· ≠ '=') with
  | some o, '=' :: value => .attached o (String.ofList value)
  | some o, _ => .awaiting o
  | none, [] => if name = "help" then .help else if name = "" then .separator else .stray
  | none, _ => .stray

/-- What is said by an argument that begins with one dash and a letter. -/
def shortToken (options : List OptionSpec) (letter : Char) (rest : List Char) : Token :=
  match options.find? fun o => o.letter == some letter, rest with
  | some o, [] => .awaiting o
  | some o, '=' :: value => .attached o (String.ofList value)
  | some o, value => .attached o (String.ofList value)
  | none, _ => if letter = 'h' then .help else .stray

def token (options : List OptionSpec) (argument : String) : Token :=
  match argument.toList with
  | '-' :: '-' :: body => longToken options body
  | '-' :: letter :: rest => shortToken options letter rest
  | _ => .stray

def looksLikeOption (argument : String) : Bool :=
  match argument.toList with
  | '-' :: _ :: _ => true
  | _ => false

/-! ## 4. All arguments -/

/-- The values of options, by name. -/
abbrev Values := List (String × String)

/-- Why the arguments of a command give no values. -/
inductive Refusal where
  | help
  | rejected
  deriving DecidableEq, Repr

/-- Enters the value of an option that has none yet. -/
def enterValue (o : OptionSpec) (value : String) (values : Values) : Except Refusal Values :=
  if (values.lookup o.name).isSome || !o.kind.accepts value then .error .rejected
  else .ok ((o.name, value) :: values)

/-- The values that some arguments give, besides those given before. -/
def scan (options : List OptionSpec) (values : Values) : List String → Except Refusal Values
  | [] => .ok values
  | argument :: rest =>
    match token options argument with
    | .help => .error .help
    | .stray => .error .rejected
    | .separator => if rest.isEmpty then .ok values else .error .rejected
    | .attached o value =>
      match enterValue o value values with
      | .ok entered => scan options entered rest
      | .error r => .error r
    | .awaiting o =>
      match rest with
      | [] => .error .rejected
      | value :: more =>
        if looksLikeOption value then .error .rejected
        else
          match enterValue o value values with
          | .ok entered => scan options entered more
          | .error r => .error r

/-- The request to optimize, if all that it needs is given. -/
def optimizeRequest? (v : Values) : Option Request := do
  let data ← v.lookup "data"
  return .optimize ⟨data⟩ ((v.lookup "config").map Path.mk)
    { symbol := v.lookup "symbol"
      train := (v.lookup "train-window").bind natural?
      test := (v.lookup "test-window").bind natural?
      fast := v.lookup "fast-range"
      slow := v.lookup "slow-range"
      summaryPath := (v.lookup "summary-csv").map Path.mk
      strategyPath := (v.lookup "config-output").map Path.mk }

/-- The request to score, if all that it needs is given. -/
def scoreRequest? (v : Values) : Option Request := do
  let data ← v.lookup "data"
  let fast ← (v.lookup "fast").bind natural?
  let slow ← (v.lookup "slow").bind natural?
  return .score ⟨data⟩ fast slow

/-- What the arguments of a command ask for. -/
def invoke (options : List OptionSpec) (request? : Values → Option Request)
    (arguments : List String) : Invocation :=
  match scan options [] arguments with
  | .error .help => .help
  | .error .rejected => .rejected
  | .ok values =>
    match request? values with
    | some r => .request r
    | none => .rejected

/-- Whether help can be asked for about some topics: none, or one command. -/
def isHelpTopic : List String → Bool
  | [] => true
  | [topic] => ["optimize", "score", "help"].contains topic
  | _ => false

/-- What an argument in place of a command asks for. -/
def standalone (argument : String) : Invocation :=
  match argument.toList with
  | '-' :: 'h' :: _ => .help
  | '-' :: 'V' :: _ => .version
  | _ =>
    if argument = "--help" then .help
    else if argument = "--version" then .version
    else .rejected

def Invocation.ofArguments : List String → Invocation
  | [] => .rejected
  | "optimize" :: arguments => invoke optimizeOptions optimizeRequest? arguments
  | "score" :: arguments => invoke scoreOptions scoreRequest? arguments
  | "help" :: topics => if isHelpTopic topics then .help else .rejected
  | argument :: _ => standalone argument

end Crossover.Command
