import ClassMachine.ClassTable
import ClassMachine.Value

/-!
# Faults of a running program

Each constructor of `Fault` is one cause for which an instruction or a call
can fail. A cause has a kind and a wording. A `RuntimeError` is a fault with
the instruction at which it arose and the calls that led there, innermost
first.
-/

namespace ClassMachine

/-- Kinds of faults. -/
inductive FaultKind where
  | lookup
  | arithmetic
  | unsupportedOperation
  | typeMismatch
  | stackUnderflow
  | invalidLocal
  | badOperand
  | fellOffEnd
  | nullReference
  | indexOutOfBounds
  | callDepthExceeded
  | budgetExhausted
  | bridge
deriving DecidableEq, Repr

def FaultKind.phrase : FaultKind → String
  | .lookup => "lookup error"
  | .arithmetic => "arithmetic fault"
  | .unsupportedOperation => "unsupported operation"
  | .typeMismatch => "type mismatch"
  | .stackUnderflow => "operand stack underflow"
  | .invalidLocal => "invalid local variable"
  | .badOperand => "bad operand"
  | .fellOffEnd => "execution fell off the end of the method"
  | .nullReference => "null reference"
  | .indexOutOfBounds => "index out of bounds"
  | .callDepthExceeded => "call depth exceeded"
  | .budgetExhausted => "instruction budget exhausted"
  | .bridge => "bridge failure"

/-- The operands that instructions ask for. -/
inductive OperandShape where
  | integer
  | slot
  | target
  | constant
  | field
  | method
  | classRef
  | component
deriving DecidableEq, Repr

def OperandShape.phrase : OperandShape → String
  | .integer => "an integer"
  | .slot => "a local index"
  | .target => "a branch target"
  | .constant => "a constant"
  | .field => "a field reference"
  | .method => "a method reference"
  | .classRef => "a class reference"
  | .component => "an array component type"

/-- The objects that instructions ask for. -/
inductive ObjectShape where
  | object
  | array
  | intArray
  | refArray
deriving DecidableEq, Repr

def ObjectShape.phrase : ObjectShape → String
  | .object => "instance"
  | .array => "array"
  | .intArray => "int array"
  | .refArray => "reference array"

/-- Why a program cannot go on. -/
inductive Fault where
  | noMethod (key : MethodKey)
  | notStatic (key : MethodKey)
  | isStatic (key : MethodKey)
  /-- A call that only a bridge can answer. -/
  | needsBridge (key : MethodKey)
  /-- A class whose initializer has failed. -/
  | failedClass (name : String)
  | divisionByZero
  | unsupportedOpcode (opcode : Opcode)
  | unsupportedArray (component : Operand)
  | argumentCount (method : MethodKey) (expected given : Nat)
  | badReceiver (found : Value)
  | notInt (found : Value)
  | notReference (found : Value)
  /-- A value that a parameter or field of the type cannot hold. -/
  | misfit (ty : Ty) (value : Value)
  | notIntLocal (found : Value)
  | notReferenceLocal
  | notIntCounter (found : Value)
  /-- An object of another shape, by its kind, or no object at all. -/
  | wrongObject (expected : ObjectShape) (found : Option String)
  | noResult (key : MethodKey)
  | popEmpty
  | peekEmpty
  | missingArguments (needed held : Nat)
  | unsetLocal (index : Nat)
  | localOutOfRange (index declared : Nat)
  | wrongOperand (expected : OperandShape) (found : Option Operand)
  | badDescriptor (cause : DescriptorError)
  | badFieldType (cause : TyError)
  | fellOffEnd (index : Nat)
  | nullDereference
  | outOfBounds (index : Int32) (length : Nat)
  | negativeSize (count : Int32)
  | tooDeep (method : MethodKey) (limit : Nat)
  | budgetSpent (budget : Nat)
  /-- The failure of a bridge, by its full text. -/
  | bridgeFailed (key : MethodKey) (cause : String)
  /-- A fault that a bridge reports in its own words. -/
  | reported (kind : FaultKind) (message : String)
deriving DecidableEq, Repr

namespace Fault

def kind : Fault → FaultKind
  | .noMethod _ | .notStatic _ | .isStatic _ | .needsBridge _ | .failedClass _ => .lookup
  | .divisionByZero => .arithmetic
  | .unsupportedOpcode _ | .unsupportedArray _ => .unsupportedOperation
  | .argumentCount .. | .badReceiver _ | .notInt _ | .notReference _ | .misfit .. | .notIntLocal _
  | .notReferenceLocal | .notIntCounter _ | .wrongObject .. | .noResult _ => .typeMismatch
  | .popEmpty | .peekEmpty | .missingArguments .. => .stackUnderflow
  | .unsetLocal _ | .localOutOfRange .. => .invalidLocal
  | .wrongOperand .. | .badDescriptor _ | .badFieldType _ => .badOperand
  | .fellOffEnd _ => .fellOffEnd
  | .nullDereference => .nullReference
  | .outOfBounds .. | .negativeSize _ => .indexOutOfBounds
  | .tooDeep .. => .callDepthExceeded
  | .budgetSpent _ => .budgetExhausted
  | .bridgeFailed .. => .bridge
  | .reported kind _ => kind

def message : Fault → String
  | .noMethod key => s!"no method or bridge for {key.text}"
  | .notStatic key => s!"{key.text} is not static"
  | .isStatic key => s!"{key.text} is static"
  | .needsBridge key => s!"virtual call to {key.text} needs a bridge"
  | .failedClass name => s!"class {name} failed to initialize"
  | .divisionByZero => "/ by zero"
  | .unsupportedOpcode opcode => s!"{opcode.mnemonic} is not supported"
  | .unsupportedArray component => s!"arrays of {component.text} are not supported"
  | .argumentCount method expected given =>
    s!"{method.text} takes {expected} argument(s), got {given}"
  | .badReceiver found => s!"receiver must be a reference, got {found.kind}"
  | .notInt found => s!"expected int on the stack, found {found.kind}"
  | .notReference found => s!"expected reference on the stack, found {found.kind}"
  | .misfit ty value =>
    s!"parameter of type {ty.text} cannot take {value.kind} value {value.text}"
  | .notIntLocal found => s!"ILOAD of a {found.kind} local"
  | .notReferenceLocal => "ALOAD of an int local"
  | .notIntCounter found => s!"IINC of a {found.kind} local"
  | .wrongObject expected (some found) => s!"expected {expected.phrase}, found {found}"
  | .wrongObject expected none => s!"expected {expected.phrase}, found a dangling reference"
  | .noResult key => s!"{key.text} returned no value"
  | .popEmpty => "pop from an empty operand stack"
  | .peekEmpty => "peek at an empty operand stack"
  | .missingArguments needed held => s!"call needs {needed} argument(s), stack holds {held}"
  | .unsetLocal index => s!"local {index} read before it was written"
  | .localOutOfRange index declared =>
    s!"local {index} is outside of the {declared} declared local(s)"
  | .wrongOperand expected (some found) => s!"expected {expected.phrase}, found {found.text}"
  | .wrongOperand expected none => s!"expected {expected.phrase}, found nothing"
  | .badDescriptor cause => cause.message
  | .badFieldType cause => cause.message
  | .fellOffEnd index => s!"no instruction at index {index}"
  | .nullDereference => "dereferenced null"
  | .outOfBounds index length => s!"index {index.toInt} out of bounds for length {length}"
  | .negativeSize count => s!"negative array size {count.toInt}"
  | .tooDeep method limit => s!"calling {method.text} exceeds the depth limit of {limit}"
  | .budgetSpent budget => s!"instruction budget of {budget} exhausted"
  | .bridgeFailed key cause => s!"{key.text}: {cause}"
  | .reported _ message => message

end Fault

/-! ## Faults with their place -/

/-- An instruction of a method. -/
structure Location where
  method : MethodKey
  index : Nat
  offset : UInt32
  opcode : String
deriving DecidableEq, Repr

namespace Location

/-- The instruction at an index of a method; past its code there is neither
offset nor opcode. -/
def of (m : LoadedMethod) (index : Nat) : Location :=
  match m.code.instructions[index]? with
  | some insn => ⟨m.key, index, insn.offset, insn.opcode.mnemonic⟩
  | none => ⟨m.key, index, 0, ""⟩

def text (l : Location) : String :=
  s!"{l.method.text} #{l.index} (offset {l.offset.toNat}, {l.opcode})"

end Location

/-- A fault, the instruction that failed and the calls that led to it. -/
structure RuntimeError where
  fault : Fault
  location : Option Location := none
  callers : List Location := []
deriving DecidableEq, Repr

namespace RuntimeError

/-- Adds the instruction that failed, or a caller if that one is known. -/
def locate (e : RuntimeError) (location : Location) : RuntimeError :=
  match e.location with
  | none => { e with location := some location }
  | some _ => { e with callers := e.callers ++ [location] }

def locationText (e : RuntimeError) : String :=
  match e.location with
  | some location => " at " ++ location.text
  | none => ""

/-- The whole text: kind, message, place and callers. -/
def text (e : RuntimeError) : String :=
  e.fault.kind.phrase ++ ": " ++ e.fault.message ++ e.locationText
    ++ String.join (e.callers.map fun caller => "\n  called from " ++ caller.text)

end RuntimeError

end ClassMachine
