/-
Crossover.Json.Writer — writing JSON text.

Two layouts: without any space, and one item a line with two spaces for each level of nesting.
-/
import Crossover.Json.Value

namespace Crossover.Json

/-! ## 1. Strings -/

def hexChar (n : Nat) : Char :=
  if n < 10 then Char.ofNat (48 + n) else Char.ofNat (87 + n)

/-- A character inside a string literal. -/
def escaped (c : Char) : List Char :=
  if c = '"' then ['\\', '"']
  else if c = '\\' then ['\\', '\\']
  else if c = '\x08' then ['\\', 'b']
  else if c = '\t' then ['\\', 't']
  else if c = '\n' then ['\\', 'n']
  else if c = '\x0c' then ['\\', 'f']
  else if c = '\r' then ['\\', 'r']
  else if c.toNat < 32 then ['\\', 'u', '0', '0', hexChar (c.toNat / 16), hexChar (c.toNat % 16)]
  else [c]

def quoted (text : String) : List Char :=
  '"' :: text.toList.flatMap escaped ++ ['"']

/-! ## 2. Without space -/

mutual

/-- A value on one line, without space between its tokens. -/
def compactChars : Json → List Char
  | .null => "null".toList
  | .boolean true => "true".toList
  | .boolean false => "false".toList
  | .number literal => literal.toList
  | .string text => quoted text
  | .array items => '[' :: compactItems items ++ [']']
  | .object members => '\x7b' :: compactMembers members ++ ['\x7d']
  | .garbled => "null".toList

def compactItems : List Json → List Char
  | [] => []
  | [v] => compactChars v
  | v :: vs => compactChars v ++ ',' :: compactItems vs

def compactMembers : List (String × Json) → List Char
  | [] => []
  | [(name, v)] => quoted name ++ ':' :: compactChars v
  | (name, v) :: ms => quoted name ++ ':' :: compactChars v ++ ',' :: compactMembers ms

end

/-- The text of a value without any space. -/
def compact (v : Json) : String :=
  String.ofList v.compactChars

/-! ## 3. One item a line -/

/-- The start of a line at a level of nesting. -/
def newline (level : Nat) : List Char :=
  '\n' :: List.replicate (2 * level) ' '

mutual

/-- A value that begins at a level of nesting, one item or member a line. -/
def prettyChars (level : Nat) : Json → List Char
  | .array [] => ['[', ']']
  | .array items => '[' :: prettyItems (level + 1) items ++ newline level ++ [']']
  | .object [] => ['\x7b', '\x7d']
  | .object members => '\x7b' :: prettyMembers (level + 1) members ++ newline level ++ ['\x7d']
  | .null => compactChars .null
  | .boolean b => compactChars (.boolean b)
  | .number literal => compactChars (.number literal)
  | .string text => compactChars (.string text)
  | .garbled => compactChars .garbled

def prettyItems (level : Nat) : List Json → List Char
  | [] => []
  | [v] => newline level ++ prettyChars level v
  | v :: vs => newline level ++ prettyChars level v ++ ',' :: prettyItems level vs

def prettyMembers (level : Nat) : List (String × Json) → List Char
  | [] => []
  | [(name, v)] => newline level ++ quoted name ++ [':', ' '] ++ prettyChars level v
  | (name, v) :: ms =>
    newline level ++ quoted name ++ [':', ' '] ++ prettyChars level v ++ ',' :: prettyMembers level ms

end

/-- The text of a value with one item a line, indented by two spaces. -/
def pretty (v : Json) : String :=
  String.ofList (v.prettyChars 0)

end Crossover.Json
