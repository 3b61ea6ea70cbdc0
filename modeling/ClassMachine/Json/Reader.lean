import ClassMachine.Json.Value
import ClassMachine.Json.Number

/-!
# Reading JSON

The grammar of JSON on characters. A reader takes a value from the front of
a text and gives the rest. Each nested value uses up at least one character,
so the length of the text bounds the recursion.
-/

namespace ClassMachine.Json

/-- The four characters that may stand between tokens. -/
def isSpace (c : Char) : Bool :=
  c == ' ' || c == '\n' || c == '\t' || c == '\r'

def skipSpace (cs : List Char) : List Char :=
  cs.dropWhile isSpace

/-! ## Strings -/

/-- The character of a one-letter escape. -/
def unescape? : Char → Option Char
  | '"' => some '"'
  | '\\' => some '\\'
  | '/' => some '/'
  | 'b' => some '\x08'
  | 'f' => some '\x0c'
  | 'n' => some '\n'
  | 'r' => some '\r'
  | 't' => some '\t'
  | _ => none

/-- The code unit of four hexadecimal digits. -/
def codeUnit? (a b c d : Char) : Option Nat :=
  Text.readHex? [a, b, c, d]

def isHighSurrogate (unit : Nat) : Bool :=
  0xD800 ≤ unit && unit ≤ 0xDBFF

def isLowSurrogate (unit : Nat) : Bool :=
  0xDC00 ≤ unit && unit ≤ 0xDFFF

/-- What has been read of a string: its characters from last to first, whether
every surrogate so far has its partner, and a high surrogate that still waits
for one. -/
structure PartialText where
  reversed : List Char
  paired : Bool
  waiting : Option Nat

namespace PartialText

def empty : PartialText :=
  ⟨[], true, none⟩

/-- Adds a character. A high surrogate right before it stays alone. -/
def push (t : PartialText) (c : Char) : PartialText :=
  ⟨c :: t.reversed, t.paired && t.waiting.isNone, none⟩

/-- Adds a code unit, pairing it with a high surrogate right before it. -/
def pushUnit (t : PartialText) (unit : Nat) : PartialText :=
  match t.waiting with
  | some high =>
    if isLowSurrogate unit then
      ⟨Char.ofNat (0x10000 + (high - 0xD800) * 0x400 + (unit - 0xDC00)) :: t.reversed, t.paired,
        none⟩
    else ⟨t.reversed, false, none⟩
  | none =>
    if isHighSurrogate unit then ⟨t.reversed, t.paired, some unit⟩
    else if isLowSurrogate unit then ⟨t.reversed, false, none⟩
    else ⟨Char.ofNat unit :: t.reversed, t.paired, none⟩

/-- The string, if every surrogate has its partner. -/
def finish (t : PartialText) : Option String :=
  if t.paired && t.waiting.isNone then some (String.ofList t.reversed.reverse) else none

end PartialText

/-- Reads a string up to its closing quote. -/
def readText : PartialText → List Char → Option (Option String × List Char)
  | _, [] => none
  | t, '"' :: cs => some (t.finish, cs)
  | t, '\\' :: 'u' :: a :: b :: c :: d :: cs =>
    match codeUnit? a b c d with
    | some unit => readText (t.pushUnit unit) cs
    | none => none
  | t, '\\' :: c :: cs =>
    match unescape? c with
    | some c => readText (t.push c) cs
    | none => none
  | t, c :: cs => if c.toNat < 0x20 ∨ c = '\\' then none else readText (t.push c) cs

/-! ## Values -/

/-- The characters of which number literals are made. -/
def isNumberChar (c : Char) : Bool :=
  c.isDigit || c == '-' || c == '+' || c == '.' || c == 'e' || c == 'E'

/-- Reads a number, keeping its literal. None of its characters may follow a
value, so the literal reaches to the first other character. -/
def readNumber (cs : List Char) : Option (Json × List Char) :=
  let (literal, rest) := cs.span isNumberChar
  match takeLiteral? literal with
  | some (_, []) => some (.number (String.ofList literal), rest)
  | _ => none

/-- Reads a literal, a string or a number. -/
def readScalar (cs : List Char) : Option (Json × List Char) :=
  match cs with
  | 'n' :: 'u' :: 'l' :: 'l' :: rest => some (.null, rest)
  | 't' :: 'r' :: 'u' :: 'e' :: rest => some (.bool true, rest)
  | 'f' :: 'a' :: 'l' :: 's' :: 'e' :: rest => some (.bool false, rest)
  | '"' :: rest => (readText .empty rest).map fun (text, rest) => (.string text, rest)
  | _ => readNumber cs

mutual

/-- Reads a value from the front of a text. -/
def readValue : (fuel : Nat) → List Char → Option (Json × List Char)
  | 0, _ => none
  | fuel + 1, cs =>
    match skipSpace cs with
    | '[' :: rest =>
      match skipSpace rest with
      | ']' :: rest => some (.array [], rest)
      | rest => (readItems fuel rest).map fun (items, rest) => (.array items, rest)
    | '\x7b' :: rest =>
      match skipSpace rest with
      | '\x7d' :: rest => some (.object [], rest)
      | rest => (readFields fuel rest).map fun (fields, rest) => (.object fields, rest)
    | rest => readScalar rest

/-- Reads the items of an array, at least one, and the bracket behind them. -/
def readItems : (fuel : Nat) → List Char → Option (List Json × List Char)
  | 0, _ => none
  | fuel + 1, cs =>
    match readValue fuel cs with
    | none => none
    | some (item, rest) =>
      match skipSpace rest with
      | ']' :: rest => some ([item], rest)
      | ',' :: rest => (readItems fuel rest).map fun (items, rest) => (item :: items, rest)
      | _ => none

/-- Reads the fields of an object, at least one, and the brace behind them. -/
def readFields : (fuel : Nat) → List Char → Option (List (Option String × Json) × List Char)
  | 0, _ => none
  | fuel + 1, cs =>
    match skipSpace cs with
    | '"' :: rest =>
      match readText .empty rest with
      | none => none
      | some (name, rest) =>
        match skipSpace rest with
        | ':' :: rest =>
          match readValue fuel rest with
          | none => none
          | some (value, rest) =>
            match skipSpace rest with
            | '\x7d' :: rest => some ([(name, value)], rest)
            | ',' :: rest =>
              (readFields fuel rest).map fun (fields, rest) => ((name, value) :: fields, rest)
            | _ => none
        | _ => none
    | _ => none

end

/-- Reads the value that a text consists of, blanks around it apart. -/
def parse? (text : String) : Option Json :=
  let cs := text.toList
  match readValue (2 * cs.length + 2) cs with
  | some (value, rest) => if (skipSpace rest).isEmpty then some value else none
  | none => none

end ClassMachine.Json
