import ClassMachine.Json.Value
import ClassMachine.Text.Quoted

/-!
# Writing JSON

Two layouts of the same value: on one line, and with a line for every item
and field, indented by two spaces a level, where empty arrays and objects stay
on their line. Strings escape quotes, backslashes and control characters and
leave everything else as it is.
-/

namespace ClassMachine.Json

/-! ## Strings -/

/-- A character as it stands inside a string. -/
def escapedChar (c : Char) : List Char :=
  if c = '"' then ['\\', '"']
  else if c = '\\' then ['\\', '\\']
  else if c = '\n' then ['\\', 'n']
  else if c = '\t' then ['\\', 't']
  else if c = '\r' then ['\\', 'r']
  else if c = '\x08' then ['\\', 'b']
  else if c = '\x0c' then ['\\', 'f']
  else if c.toNat < 0x10 then ['\\', 'u', '0', '0', '0'] ++ Text.hexadecimal c.toNat
  else if c.toNat < 0x20 then ['\\', 'u', '0', '0'] ++ Text.hexadecimal c.toNat
  else [c]

/-- A string between quotes. Text that is no string is written as an unpaired
surrogate. -/
def textLiteral : Option String → List Char
  | some s => '"' :: s.toList.flatMap escapedChar ++ ['"']
  | none => ['"', '\\', 'u', 'd', '8', '0', '0', '"']

/-! ## One line -/

mutual

/-- A value on one line. -/
def compact : Json → List Char
  | .null => "null".toList
  | .bool value => if value then "true".toList else "false".toList
  | .number literal => literal.toList
  | .string text => textLiteral text
  | .array items => '[' :: compactItems items ++ [']']
  | .object fields => '\x7b' :: compactFields fields ++ ['\x7d']

def compactItems : List Json → List Char
  | [] => []
  | [item] => compact item
  | item :: items => compact item ++ ',' :: compactItems items

def compactFields : List (Option String × Json) → List Char
  | [] => []
  | [(name, value)] => textLiteral name ++ ':' :: compact value
  | (name, value) :: fields => textLiteral name ++ ':' :: compact value ++ ',' :: compactFields fields

end

/-! ## Indented lines -/

/-- A new line at the given level. -/
def newLine (level : Nat) : List Char :=
  '\n' :: List.replicate (2 * level) ' '

mutual

/-- A value whose first line starts at the given level. -/
def pretty : Json → (level : Nat) → List Char
  | .null, _ => "null".toList
  | .bool value, _ => if value then "true".toList else "false".toList
  | .number literal, _ => literal.toList
  | .string text, _ => textLiteral text
  | .array [], _ => ['[', ']']
  | .array items, level => '[' :: prettyItems items (level + 1) ++ newLine level ++ [']']
  | .object [], _ => ['\x7b', '\x7d']
  | .object fields, level => '\x7b' :: prettyFields fields (level + 1) ++ newLine level ++ ['\x7d']

/-- Items at the given level, each on a line of its own. -/
def prettyItems : List Json → (level : Nat) → List Char
  | [], _ => []
  | [item], level => newLine level ++ pretty item level
  | item :: items, level => newLine level ++ pretty item level ++ ',' :: prettyItems items level

/-- Fields at the given level, each on a line of its own. -/
def prettyFields : List (Option String × Json) → (level : Nat) → List Char
  | [], _ => []
  | [(name, value)], level => newLine level ++ textLiteral name ++ [':', ' '] ++ pretty value level
  | (name, value) :: fields, level =>
    newLine level ++ textLiteral name ++ [':', ' '] ++ pretty value level
      ++ ',' :: prettyFields fields level

end

/-- The value as indented text. -/
def prettyText (value : Json) : String :=
  String.ofList (value.pretty 0)

/-- The value as one line of text. -/
def compactText (value : Json) : String :=
  String.ofList value.compact

end ClassMachine.Json
