import ClassMachine.Cells
import ClassMachine.Decimal.Layout
import ClassMachine.Table
import ClassMachine.Value

/-!
# The heap

Objects are kept in the order of their allocation and are never removed; an
object is named by its index. Strings and class literals are interned: asking
twice for the same one gives the same object. What can change of an object is
an element of an array or a field of an instance.

A reference is a word of 32 bits, and the index here is the number that this
word stands for. So the heaps modelled are those of fewer than `2 ^ 32` objects.
-/

namespace ClassMachine

/-- An object of the heap. Binary numbers are held as words. -/
inductive HeapObject where
  | string (text : String)
  | classLiteral (name : String)
  | float (word : UInt32)
  | long (value : Int64)
  | double (word : UInt64)
  | object (className : String) (fields : Table String Value)
  | ints (component : TyKind) (elements : Cells (0 : Int32))
  | refs (component : String) (elements : Cells Value.null)
deriving DecidableEq

/-- What is written into an object. -/
inductive Write where
  /-- An element of an integer array. -/
  | word (position : Nat) (value : Int32)
  /-- An element of an array of references. -/
  | reference (position : Nat) (value : Option Nat)
  /-- A field of an instance. -/
  | field (name : String) (value : Value)
deriving DecidableEq

namespace HeapObject

/-- The word for the kind of an object in messages. -/
def kind : HeapObject → String
  | .string _ => "string"
  | .classLiteral _ => "class literal"
  | .float _ => "float"
  | .long _ => "long"
  | .double _ => "double"
  | .object .. => "instance"
  | .ints .. | .refs .. => "array"

/-- Whether the object stands for a value of two stack slots. -/
def isWide : HeapObject → Bool
  | .long _ | .double _ => true
  | _ => false

/-- Numbers on the heap are shown in positions from `10 ^ (-4)` up to below
`10 ^ 16`, with at least one decimal place. -/
def layout : Decimal.Layout where
  positional e := decide (-4 ≤ e ∧ e < 16)
  keepPlace := true
  plusSign := false
  tie := .up

/-- The text that stands for an object at an index. -/
def render (index : Nat) : HeapObject → String
  | .string text => text
  | .classLiteral name => "class " ++ dottedName name
  | .float word => layout.text Decimal.single word.toNat
  | .long value => toString value.toInt
  | .double word => layout.text Decimal.double word.toNat
  | .object className _ => dottedName className ++ "@" ++ toString index
  | .ints _ elements =>
    "[" ++ String.intercalate ", " (elements.toList.map fun n => toString n.toInt) ++ "]"
  | .refs component elements =>
    component ++ "[" ++ toString elements.size ++ "]@" ++ toString index

/-- The object after a write. A write of another kind of object leaves it. -/
def write : Write → HeapObject → HeapObject
  | .word position value, .ints component elements =>
    .ints component (elements.set position value)
  | .reference position value, .refs component elements =>
    .refs component (elements.set position (.ofReference value))
  | .field name value, .object className fields =>
    .object className (fields.insert name value)
  | _, other => other

end HeapObject

/-- The objects in the order of their allocation, and the interned ones. -/
structure Heap where
  objects : Array HeapObject
  strings : Table String Nat
  classes : Table String Nat

namespace Heap

def empty : Heap :=
  ⟨#[], .empty, .empty⟩

def size (h : Heap) : Nat :=
  h.objects.size

def get? (h : Heap) (index : Nat) : Option HeapObject :=
  h.objects[index]?

/-- Adds an object and gives its index. -/
def alloc (h : Heap) (object : HeapObject) : Nat × Heap :=
  (h.size, { h with objects := h.objects.push object })

/-- Writes into an object. -/
def write (h : Heap) (index : Nat) (w : Write) : Heap :=
  { h with objects := h.objects.modify index (HeapObject.write w) }

/-- The object of a string, allocated when it is asked for first. -/
def intern (h : Heap) (text : String) : Nat × Heap :=
  match h.strings.find? text with
  | some index => (index, h)
  | none =>
    let (index, h) := h.alloc (.string text)
    (index, { h with strings := h.strings.insert text index })

/-- The object of a class, allocated when it is asked for first. -/
def classLiteral (h : Heap) (name : String) : Nat × Heap :=
  match h.classes.find? name with
  | some index => (index, h)
  | none =>
    let (index, h) := h.alloc (.classLiteral name)
    (index, { h with classes := h.classes.insert name index })

/-- The object that a value refers to. -/
def deref? (h : Heap) : Value → Option HeapObject
  | .ref index => h.get? index
  | _ => none

/-- The text of a string object. -/
def string? (h : Heap) (value : Value) : Option String :=
  match h.deref? value with
  | some (.string text) => some text
  | _ => none

/-- Whether a value stands for one of two stack slots. -/
def isWide (h : Heap) (value : Value) : Bool :=
  (h.deref? value).any HeapObject.isWide

/-- The text that stands for a value. -/
def render (h : Heap) : Value → String
  | .ref index =>
    match h.get? index with
    | some object => object.render index
    | none => "<dangling @" ++ toString index ++ ">"
  | value => value.text

end Heap

end ClassMachine
