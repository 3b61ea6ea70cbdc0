import ClassMachine.Json.Reader

/-!
# Reading records from JSON

Records are objects or, with their fields in order, arrays. Fields that a
record does not know are skipped, and only their syntax counts; a known field
may stand only once. Alternatives are told apart by a tag beside their content,
or in front of it in an array. Content in front of its tag has to be kept until
the tag is known, so there it must be within the bounds of what can be kept.
-/

namespace ClassMachine.Json

/-! ## Scalars and lists -/

/-- The whole number of a field, if the range holds it. -/
def int? (range : Text.Range) : Json → Option Int
  | .number literal =>
    match numeric? literal with
    | some (.whole n) => if range.least ≤ n ∧ n ≤ range.greatest then some n else none
    | _ => none
  | _ => none

/-- The natural number of a field, if the range holds it. -/
def nat? (range : Text.Range) (value : Json) : Option Nat :=
  (value.int? range).map Int.toNat

/-- The word nearest to the number of a field. -/
def word? (f : Decimal.Format) : Json → Option Nat
  | .number literal =>
    match numeric? literal with
    | some (.whole n) => some (f.ofInt n)
    | some (.real word) => some (f.convert Decimal.double word)
    | none => none
  | _ => none

def text? : Json → Option String
  | .string text => text
  | _ => none

/-- The list of an array, if every item can be read. -/
def list? {α : Type} (read : Json → Option α) : Json → Option (List α)
  | .array items => items.mapM read
  | _ => none

/-! ## Records -/

/-- The fields of a record by name. -/
def fields? (names : List String) : Json → Option (List (String × Json))
  | .object fields => do
    let named ← fields.mapM fun (name, value) => name.map (·, value)
    let known := named.filter fun field => names.contains field.1
    if (known.map Prod.fst).Nodup then some known else none
  | .array items => if items.length ≤ names.length then some (names.zip items) else none
  | _ => none

/-! ## Alternatives -/

/-- The deepest nesting of content that is kept until its tag is known. -/
def keptDepth : Nat := 119

mutual

/-- Whether content can be kept: numbers in range, strings well formed and values
nested at most so deep. -/
def isKept : Json → (depth : Nat) → Bool
  | .null, _ | .bool _, _ => true
  | .number literal, _ => (numeric? literal).isSome
  | .string text, _ => text.isSome
  | .array _, 0 | .object _, 0 => false
  | .array items, depth + 1 => areKept items depth
  | .object fields, depth + 1 => areFieldsKept fields depth

def areKept : List Json → (depth : Nat) → Bool
  | [], _ => true
  | item :: items, depth => isKept item depth && areKept items depth

def areFieldsKept : List (Option String × Json) → (depth : Nat) → Bool
  | [], _ => true
  | (name, value) :: fields, depth =>
    name.isSome && isKept value depth && areFieldsKept fields depth

end

/-- Whether a value is read in its place, or has been kept until a tag behind it
was known. -/
inductive Origin where
  | inPlace
  | kept
deriving DecidableEq, Repr

/-- A name, by itself or as the only field of an object. The field has no value;
for a name that has been kept, an empty object is no value either. -/
def name? (origin : Origin) : Json → Option String
  | .string text => text
  | .object [(some name, .null)] => some name
  | .object [(some name, .object [])] => if origin = .kept then some name else none
  | _ => none

/-- The name of an alternative in front of its content in an array. One that has
been kept may also be given by its number. -/
def leadingName? (origin : Origin) (names : List String) : Json → Option String
  | .string text => text
  | .number literal =>
    if origin = .kept then (int? .uint64 (.number literal)).bind fun n => names[n.toNat]? else none
  | _ => none

/-- The tag and the content of an alternative, and where the content comes from.
The tag is one of the names. -/
def tagged? (tag content : String) (names : List String) (origin : Origin) :
    Json → Option (String × Json × Origin)
  | .array [first, second] => do
    return (← first.leadingName? origin names, second, origin)
  | .object fields => do
    match ← fields? [tag, content] (.object fields) with
    | [(first, a), (_, b)] =>
      if first = tag then return (← a.name? origin, b, origin)
      else if a.isKept keptDepth then return (← b.name? origin, a, .kept)
      else none
    | _ => none
  | _ => none

end ClassMachine.Json
