/-
Crossover.Toml.Reader — reading TOML text.

Values are read by recursion with fuel: every call spends one unit and at least every second one
consumes a character, so that twice the length of the text is enough. Lines are read one after the
other, each changing the members read so far (`Progress`). Arrays and tables in braces may lie inside
one another down to a depth of `maxDepth`, and a dotted key has at most as many parts.
-/
import Crossover.Toml.Scalar

namespace Crossover.Toml

/-! ## 1. Keys -/

/-- How deep values may lie inside one another, and how many parts a key may have. -/
def maxDepth : Nat := 79

/-- Whether a character may stand in a key without quotes. -/
def isKeyChar (c : Char) : Bool :=
  c.isAlphanum || c = '_' || c = '-'

/-- One part of a key. -/
def keyPart? (cs : List Char) : Option (String × List Char) :=
  match cs with
  | '"' :: rest => (basic? (rest.length + 1) rest).map fun (text, left) => (String.ofList text, left)
  | '\'' :: rest => (literal? rest).map fun (text, left) => (String.ofList text, left)
  | _ =>
    let run := cs.takeWhile isKeyChar
    if run.isEmpty then none else some (String.ofList run, cs.drop run.length)

/-- The parts of a key with points between them. Spaces may stand around points. -/
def keyParts? : Nat → List Char → Option (List String × List Char)
  | 0, _ => none
  | fuel + 1, cs =>
    match keyPart? (skipSpace cs) with
    | none => none
    | some (part, rest) =>
      match skipSpace rest with
      | '.' :: more => (keyParts? fuel more).map fun (parts, left) => (part :: parts, left)
      | left => some ([part], left)

/-- A key: the path to a table, and a name in it. -/
structure Key where
  path : List String
  name : String

def key? (cs : List Char) : Option (Key × List Char) :=
  match keyParts? maxDepth cs with
  | some (parts, left) =>
    match parts.getLast? with
    | some name => some (⟨parts.dropLast, name⟩, left)
    | none => none
  | none => none

/-! ## 2. Between values -/

/-- What follows a comment, if there is one; the line break after it is left. -/
def skipComment? (cs : List Char) : Option (List Char) :=
  match cs with
  | '#' :: rest =>
    let left := rest.dropWhile isPlain
    if left.isEmpty || (lineBreak? left).isSome then some left else none
  | _ => some cs

/-- What follows spaces, comments and line breaks inside an array. -/
def skipFiller? : Nat → List Char → Option (List Char)
  | 0, _ => none
  | fuel + 1, cs =>
    match skipComment? (skipSpace cs) with
    | none => none
    | some rest =>
      match lineBreak? rest with
      | some more => skipFiller? fuel more
      | none => some rest

/-- What follows the filler at the head of a text. -/
def skipAllFiller? (cs : List Char) : Option (List Char) :=
  skipFiller? (cs.length + 1) cs

/-! ## 3. Values -/

mutual

/-- A value at a depth, and what follows it. -/
def value? : Nat → Nat → List Char → Option (Toml × List Char)
  | 0, _, _ => none
  | fuel + 1, depth, cs =>
    match cs with
    | '"' :: _ => (string? cs).map fun (text, left) => (.string (String.ofList text), left)
    | '\'' :: _ => (string? cs).map fun (text, left) => (.string (String.ofList text), left)
    | '[' :: rest =>
      if maxDepth ≤ depth then none
      else
        match skipAllFiller? rest with
        | some (']' :: left) => some (.array [], left)
        | some more => (items? fuel (depth + 1) more).map fun (vs, left) => (.array vs, left)
        | none => none
    | '\x7b' :: rest =>
      if maxDepth ≤ depth then none
      else
        match skipSpace rest with
        | '\x7d' :: left => some (.table .braces [], left)
        | more =>
          (members? fuel (depth + 1) [] more).map fun (ms, left) => (.table .braces ms, left)
    | _ => (scalar? (word cs).1).map (·, (word cs).2)

/-- The items of an array from the next one to the closing bracket. -/
def items? : Nat → Nat → List Char → Option (List Toml × List Char)
  | 0, _, _ => none
  | fuel + 1, depth, cs =>
    match value? fuel depth cs with
    | none => none
    | some (v, rest) =>
      match skipAllFiller? rest with
      | some (']' :: left) => some ([v], left)
      | some (',' :: more) =>
        match skipAllFiller? more with
        | some (']' :: left) => some ([v], left)
        | some next => (items? fuel depth next).map fun (vs, left) => (v :: vs, left)
        | none => none
      | _ => none

/-- The members of a table in braces, those read so far and the rest up to the closing brace. -/
def members? : Nat → Nat → Members → List Char → Option (Members × List Char)
  | 0, _, _, _ => none
  | fuel + 1, depth, sofar, cs =>
    match key? cs with
    | some (key, '=' :: rest) =>
      match value? fuel depth (skipSpace rest) with
      | none => none
      | some (v, afterValue) =>
        match set? key.path key.name v .braces sofar with
        | none => none
        | some ms =>
          match skipSpace afterValue with
          | ',' :: more => members? fuel depth ms more
          | '\x7d' :: left => some (ms, left)
          | _ => none
    | _ => none

end

/-- A value of a member at the top, and what follows it. -/
def topValue? (cs : List Char) : Option (Toml × List Char) :=
  value? (2 * cs.length + 1) 0 cs

/-! ## 4. Lines -/

/-- The members read so far, and the path to the table that the last header opened. -/
structure Progress where
  root : Members := []
  current : List String := []

/-- The start of the next line: spaces and a comment may come before it. -/
def endOfLine? (cs : List Char) : Option (List Char) :=
  match skipComment? (skipSpace cs) with
  | some [] => some []
  | some rest => lineBreak? rest
  | none => none

/-- A line with a header in double brackets, after them. -/
def tablesLine? (p : Progress) (cs : List Char) : Option (Progress × List Char) :=
  match key? cs with
  | some (key, ']' :: ']' :: rest) =>
    (append? key.path key.name p.root).map fun root => (⟨root, key.path ++ [key.name]⟩, rest)
  | _ => none

/-- A line with a header, after its bracket. -/
def tableLine? (p : Progress) (cs : List Char) : Option (Progress × List Char) :=
  match key? cs with
  | some (key, ']' :: rest) =>
    (open? key.path key.name p.root).map fun root => (⟨root, key.path ++ [key.name]⟩, rest)
  | _ => none

def memberLine? (p : Progress) (cs : List Char) : Option (Progress × List Char) :=
  match key? cs with
  | some (key, '=' :: rest) =>
    match topValue? (skipSpace rest) with
    | some (v, left) =>
      (setUnder? p.current key.path key.name v p.root).map fun root => ({ p with root := root }, left)
    | none => none
  | _ => none

/-- What a line says, and what follows that on the line. -/
def line? (p : Progress) (cs : List Char) : Option (Progress × List Char) :=
  match skipSpace cs with
  | [] => some (p, [])
  | '#' :: rest => some (p, '#' :: rest)
  | '\n' :: rest => some (p, '\n' :: rest)
  | '\r' :: rest => some (p, '\r' :: rest)
  | '[' :: '[' :: rest => tablesLine? p rest
  | '[' :: rest => tableLine? p rest
  | more => memberLine? p more

def lines? : Nat → Progress → List Char → Option Progress
  | 0, _, _ => none
  | _ + 1, p, [] => some p
  | fuel + 1, p, cs =>
    match line? p cs with
    | none => none
    | some (next, rest) =>
      match endOfLine? rest with
      | some left => lines? fuel next left
      | none => none

/-- Reads a whole text as a table; a byte order mark before it is skipped. -/
def read? (text : String) : Option Toml :=
  let cs := match text.toList with
    | '\ufeff' :: rest => rest
    | cs => cs
  (lines? (cs.length + 1) {} cs).map fun p => .table .header p.root

end Crossover.Toml
