/-!
# JSON values

Numbers keep the literal they were written with, so that a reader of a field
can tell `1` from `1.0` and decide about ranges itself. Object fields keep
their order and may repeat. Text with an unpaired surrogate escape is no
string; it is kept as `none`, because a field that nobody reads may hold it.
-/

namespace ClassMachine

/-- A JSON value. -/
inductive Json where
  | null
  | bool (value : Bool)
  | number (literal : String)
  | string (text : Option String)
  | array (items : List Json)
  | object (fields : List (Option String × Json))
deriving Inhabited

namespace Json

/-- A string value. -/
def ofString (s : String) : Json :=
  .string (some s)

/-- The literal of a whole number. -/
def ofInt (n : Int) : Json :=
  .number (toString n)

/-- The literal of a natural number. -/
def ofNat (n : Nat) : Json :=
  .number (toString n)

/-- An object with the given fields. -/
def record (fields : List (String × Json)) : Json :=
  .object (fields.map fun (name, value) => (some name, value))

end Json

end ClassMachine
