import ClassMachine.Ty

/-!
# Values

A value is a 32-bit word, a reference to an object of the heap or null.
Longer numbers live on the heap and travel as references.
-/

namespace ClassMachine

/-- What stacks, local variables and fields hold. -/
inductive Value where
  | int (value : Int32)
  /-- The object at an index of the heap. -/
  | ref (index : Nat)
  | null
deriving DecidableEq, Repr

namespace Value

def isReference : Value → Bool
  | .int _ => false
  | _ => true

/-- The word for the kind of a value in messages. -/
def kind : Value → String
  | .int _ => "int"
  | .ref _ => "reference"
  | .null => "null"

/-- A value as it is shown in messages. -/
def text : Value → String
  | .int value => toString value.toInt
  | .ref index => "@" ++ toString index
  | .null => "null"

/-- The value of a field that has not been written, by its descriptor. -/
def defaultFor (descriptor : String) : Value :=
  match descriptor.toList with
  | 'B' :: _ | 'C' :: _ | 'S' :: _ | 'Z' :: _ | 'I' :: _ => .int 0
  | _ => .null

/-- The value of a reference that may be null. -/
def ofReference : Option Nat → Value
  | some index => .ref index
  | none => .null

/-- Whether a field or parameter of the type may hold the value. -/
def fits (ty : Ty) (value : Value) : Bool :=
  if ty.isIntLike then !value.isReference else value.isReference

theorem fits_iff {ty : Ty} {value : Value} :
    value.fits ty = true ↔
      if ty.isIntLike then ∃ word, value = .int word
      else value = .null ∨ ∃ index, value = .ref index := by
  unfold fits
  cases value <;> split <;> simp [isReference]

end Value

end ClassMachine
