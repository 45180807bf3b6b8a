/-
Crossover.Toml.Value — TOML values, and the rules by which keys and headers build them.

A table remembers what opened it, because that decides on what may be added to it later: a header may
open a table only once, a dotted key may enter only tables that no header opened, and a table in
braces is closed. Every rule here returns none where the text says something twice.
-/
import Crossover.Document

namespace Crossover

/-! ## 1. Values -/

/-- What opened a table. -/
inductive Opening where
  /-- Its own header, or the start of the text. -/
  | header
  /-- A header of a table inside it. -/
  | implied
  /-- A dotted key. -/
  | dotted
  /-- Braces. -/
  | braces
  deriving DecidableEq, Repr

inductive Toml where
  | string (text : String)
  | integer (n : Int)
  | float (x : Float)
  | boolean (b : Bool)
  /-- A date, a time of day, or both. -/
  | moment
  | array (items : List Toml)
  | table (opening : Opening) (members : List (String × Toml))
  /-- Tables under one name with a header each, the latest last. -/
  | tables (earlier : List Toml) (latest : List (String × Toml))
  deriving Inhabited

namespace Toml

abbrev Members := List (String × Toml)

/-! ## 2. Changing members -/

/-- The members with another value for a name they have. -/
def replace (name : String) (value : Toml) : Members → Members
  | [] => []
  | (n, v) :: rest => if n = name then (n, value) :: rest else (n, v) :: replace name value rest

/-- The members with one more, if the name is new. -/
def add? (name : String) (value : Toml) (members : Members) : Option Members :=
  match members.lookup name with
  | some _ => none
  | none => some (members ++ [(name, value)])

/-- Changes the members of the table at the end of a path. A missing table on the way is opened as
`opened`; a table that is there is entered if `enterable` allows it. Under tables with a header each,
the latest is meant. The change is told what opened its table. -/
def within? (opened : Opening) (enterable : Opening → Bool)
    (change : Opening → Members → Option Members) :
    List String → Opening → Members → Option Members
  | [], opening, members => change opening members
  | name :: path, _, members =>
    match members.lookup name with
    | none => do
      let inner ← within? opened enterable change path opened []
      return members ++ [(name, .table opened inner)]
    | some (.table opening inner) =>
      if enterable opening then do
        let changed ← within? opened enterable change path opening inner
        return replace name (.table opening changed) members
      else none
    | some (.tables earlier latest) => do
      let changed ← within? opened enterable change path .header latest
      return replace name (.tables earlier changed) members
    | some _ => none

/-- Whether a header may lead through a table. -/
def byHeader (o : Opening) : Bool :=
  o ≠ .braces

/-- Whether a dotted key may lead through a table. -/
def byKey (o : Opening) : Bool :=
  o = .implied || o = .dotted

/-! ## 3. Keys and headers -/

/-- Sets the value of a key, dotted or not, in a table. The table that a dotted key leads to must
itself have been opened by a dotted key. -/
def set? (path : List String) (name : String) (value : Toml) :
    Opening → Members → Option Members :=
  within? .dotted byKey
    (fun opening members =>
      if (opening == .dotted) == path.isEmpty then none else add? name value members)
    path

/-- Opens a table by its header. -/
def open? (path : List String) (name : String) (root : Members) : Option Members :=
  within? .implied byHeader
    (fun _ members =>
      match members.lookup name with
      | none => some (members ++ [(name, .table .header [])])
      | some (.table .implied inner) => some (replace name (.table .header inner) members)
      | some _ => none)
    path .header root

/-- Opens one more table under a name by a header in double brackets. -/
def append? (path : List String) (name : String) (root : Members) : Option Members :=
  within? .implied byHeader
    (fun _ members =>
      match members.lookup name with
      | none => some (members ++ [(name, .tables [] [])])
      | some (.tables earlier latest) =>
        some (replace name (.tables (earlier ++ [.table .header latest]) []) members)
      | some _ => none)
    path .header root

/-- Sets the value of a key in the table that the last header opened. -/
def setUnder? (current path : List String) (name : String) (value : Toml) (root : Members) :
    Option Members :=
  within? .implied byHeader (set? path name value) current .header root

/-! ## 4. Documents -/

mutual

/-- A TOML value as a document. An integer below zero, a moment and infinity fit no field. -/
def document : Toml → Document
  | .string text => .text text
  | .integer n => if n < 0 then .unusable else .natural n.toNat
  | .float x => .real x
  | .boolean b => .boolean b
  | .moment => .unusable
  | .array items => .list (documents items)
  | .table _ members => .fields (memberDocuments members)
  | .tables earlier latest => .list (documents earlier ++ [.fields (memberDocuments latest)])

def documents : List Toml → List Document
  | [] => []
  | v :: vs => v.document :: documents vs

def memberDocuments : Members → List (String × Document)
  | [] => []
  | (name, v) :: ms => (name, v.document) :: memberDocuments ms

end

end Toml

end Crossover
