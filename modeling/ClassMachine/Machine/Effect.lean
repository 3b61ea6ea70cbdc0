import ClassMachine.Frame
import ClassMachine.Heap
import ClassMachine.Machine.Word

/-!
# Effects of single instructions

What an instruction comes to is a function of its frame and the heap. Here
an instruction takes its operands, and says what is left to do: to go on, to
change the heap, to jump, to return, to call a method or to use a class. The
machine sees to that.
-/

namespace ClassMachine

/-- What an instruction does once a class has been initialized. -/
inductive ClassUse where
  | getStatic (field : MemberRef)
  | putStatic (field : MemberRef) (value : Value)
  | new (name : String)
deriving DecidableEq

/-- A call whose operands have been taken from the stack. A static call has no
receiver; any other one has a receiver that may be null. -/
structure Call where
  mode : CallMode
  key : MethodKey
  descriptor : Descriptor
  receiver : Option (Option Nat)
  args : List Value
deriving DecidableEq

/-- What an instruction comes to. -/
inductive Effect where
  /-- On to the next instruction. -/
  | next (frame : Frame)
  /-- The same, with a new object whose reference is pushed. -/
  | allocate (frame : Frame) (object : HeapObject)
  /-- The same, with the value of a literal pushed. -/
  | constant (frame : Frame) (value : Constant)
  /-- The same, with something written into an object. -/
  | write (frame : Frame) (object : Nat) (w : Write)
  | jump (frame : Frame) (target : Nat)
  | leave (value : Option Value)
  /-- First the class of that name has to be initialized. -/
  | touch (frame : Frame) (name : String) (use : ClassUse)
  | call (frame : Frame) (call : Call)

/-! ## Operands -/

/-- The component that the name of a primitive type stands for. -/
def TyKind.ofName? : String → Option TyKind
  | "boolean" => some .boolean
  | "char" => some .char
  | "byte" => some .byte
  | "short" => some .short
  | "int" => some .int
  | _ => none

/-- The component that a type code stands for. -/
def TyKind.ofTypeCode? : Int → Option TyKind
  | 4 => some .boolean
  | 5 => some .char
  | 8 => some .byte
  | 9 => some .short
  | 10 => some .int
  | _ => none

namespace Instruction

def operand? (insn : Instruction) (position : Nat) : Option Operand :=
  insn.operands[position]?

def intOperand (insn : Instruction) (position : Nat) : Except Fault Int32 :=
  match insn.operand? position with
  | some (.int value) => .ok value
  | found => .error (.wrongOperand .integer found)

def slotOperand (insn : Instruction) : Except Fault Nat :=
  match insn.operand? 0 with
  | some (.slot index) => .ok index.toNat
  | found => .error (.wrongOperand .slot found)

def targetOperand (insn : Instruction) : Except Fault Nat :=
  match insn.operand? 0 with
  | some (.target index) => .ok index
  | found => .error (.wrongOperand .target found)

def constantOperand (insn : Instruction) : Except Fault Constant :=
  match insn.operand? 0 with
  | some (.constant value) => .ok value
  | found => .error (.wrongOperand .constant found)

def fieldOperand (insn : Instruction) : Except Fault MemberRef :=
  match insn.operand? 0 with
  | some (.field ref) => .ok ref
  | found => .error (.wrongOperand .field found)

def methodOperand (insn : Instruction) : Except Fault MemberRef :=
  match insn.operand? 0 with
  | some (.method ref) => .ok ref
  | found => .error (.wrongOperand .method found)

def classOperand (insn : Instruction) : Except Fault String :=
  match insn.operand? 0 with
  | some (.classRef name) => .ok name
  | found => .error (.wrongOperand .classRef found)

/-- The component of a new integer array, by name or by type code. -/
def componentOperand (insn : Instruction) : Except Fault TyKind :=
  match insn.operand? 0 with
  | some (.raw name) =>
    match TyKind.ofName? name with
    | some kind => .ok kind
    | none => .error (.unsupportedArray (.raw name))
  | some (.int code) =>
    match TyKind.ofTypeCode? code.toInt with
    | some kind => .ok kind
    | none => .error (.unsupportedArray (.int code))
  | found => .error (.wrongOperand .component found)

end Instruction

/-! ## References and indices -/

/-- The object that a reference names, unless it is null. -/
def nonNull : Option Nat → Except Fault Nat
  | some index => .ok index
  | none => .error .nullDereference

/-- The position in an array of the given length that a word names. -/
def arrayIndex (length : Nat) (index : Int32) : Except Fault Nat :=
  if 0 ≤ index.toInt ∧ index.toInt < length then .ok index.toInt.toNat
  else .error (.outOfBounds index length)

/-- The length of a new array. -/
def newLength (count : Int32) : Except Fault Nat :=
  if 0 ≤ count.toInt then .ok count.toInt.toNat else .error (.negativeSize count)

namespace Heap

/-- The fault of finding something else than the expected object. -/
def mismatch (expected : ObjectShape) (found : Option HeapObject) : Fault :=
  .wrongObject expected (found.map HeapObject.kind)

def intArray (h : Heap) (index : Nat) : Except Fault (TyKind × Cells (0 : Int32)) :=
  match h.get? index with
  | some (.ints component elements) => .ok (component, elements)
  | found => .error (mismatch .intArray found)

def refArray (h : Heap) (index : Nat) : Except Fault (String × Cells Value.null) :=
  match h.get? index with
  | some (.refs component elements) => .ok (component, elements)
  | found => .error (mismatch .refArray found)

def arraySize (h : Heap) (index : Nat) : Except Fault Nat :=
  match h.get? index with
  | some (.ints _ elements) => .ok elements.size
  | some (.refs _ elements) => .ok elements.size
  | found => .error (mismatch .array found)

def instanceFields (h : Heap) (index : Nat) : Except Fault (String × Table String Value) :=
  match h.get? index with
  | some (.object className fields) => .ok (className, fields)
  | found => .error (mismatch .object found)

/-- The value of a literal, allocated if it is no word. -/
def constant (h : Heap) : Constant → Value × Heap
  | .int value => (.int value, h)
  | .string text => let (index, h) := h.intern text; (.ref index, h)
  | .classRef name => let (index, h) := h.classLiteral name; (.ref index, h)
  | .float word => let (index, h) := h.alloc (.float word); (.ref index, h)
  | .long value => let (index, h) := h.alloc (.long value); (.ref index, h)
  | .double word => let (index, h) := h.alloc (.double word); (.ref index, h)

end Heap

/-! ## Groups of instructions -/

namespace Frame

/-- Loads of words and references check what they find. -/
def loadSlot (f : Frame) (slot : Slot) (index : Nat) : Except Fault Frame := do
  let value ← f.load index
  match slot with
  | .int => if value.isReference then throw (.notIntLocal value) else return f.push value
  | .ref => if value.isReference then return f.push value else throw .notReferenceLocal
  | _ => return f.push value

/-- Takes from the stack what a store, return or similar instruction asks for. -/
def popSlot (f : Frame) : Slot → Except Fault (Value × Frame)
  | .int => do
    let (value, f) ← f.popInt
    return (.int value, f)
  | .ref => do
    let (reference, f) ← f.popRef
    return (.ofReference reference, f)
  | _ => f.pop

/-- Adds to a word in a local variable. -/
def increment (f : Frame) (index : Nat) (delta : Int32) : Except Fault Frame := do
  match ← f.load index with
  | .int current => f.store index (.int (current + delta))
  | found => throw (.notIntCounter found)

/-- Takes an array and an index from the stack. -/
def popElement (f : Frame) : Except Fault (Nat × Int32 × Frame) := do
  let (index, f) ← f.popInt
  let (reference, f) ← f.popRef
  let array ← nonNull reference
  return (array, index, f)

def arrayLoad (f : Frame) (h : Heap) : Cell → Except Fault Frame
  | .ref => do
    let (array, index, f) ← f.popElement
    let (_, elements) ← h.refArray array
    let position ← arrayIndex elements.size index
    return f.push (elements.get position)
  | _ => do
    let (array, index, f) ← f.popElement
    let (_, elements) ← h.intArray array
    let position ← arrayIndex elements.size index
    return f.push (.int (elements.get position))

def arrayStore (f : Frame) (h : Heap) : Cell → Except Fault Effect
  | .ref => do
    let (value, f) ← f.popRef
    let (array, index, f) ← f.popElement
    let (_, elements) ← h.refArray array
    let position ← arrayIndex elements.size index
    return .write f array (.reference position value)
  | cell => do
    let (value, f) ← f.popInt
    let (array, index, f) ← f.popElement
    let (component, elements) ← h.intArray array
    let position ← arrayIndex elements.size index
    return .write f array (.word position (cell.narrow component value))

def pop2 (f : Frame) (h : Heap) : Except Fault Frame := do
  let (top, f) ← f.pop
  if h.isWide top then return f
  else
    let (_, f) ← f.pop
    return f

def dupX1 (f : Frame) : Except Fault Frame := do
  let (v1, f) ← f.pop
  let (v2, f) ← f.pop
  return f.pushAll [v1, v2, v1]

def dupX2 (f : Frame) (h : Heap) : Except Fault Frame := do
  let (v1, f) ← f.pop
  let (v2, f) ← f.pop
  if h.isWide v2 then return f.pushAll [v1, v2, v1]
  else
    let (v3, f) ← f.pop
    return f.pushAll [v1, v3, v2, v1]

def dup2 (f : Frame) (h : Heap) : Except Fault Frame := do
  let (v1, f) ← f.pop
  if h.isWide v1 then return f.pushAll [v1, v1]
  else
    let (v2, f) ← f.pop
    return f.pushAll [v2, v1, v2, v1]

def swap (f : Frame) : Except Fault Frame := do
  let (v1, f) ← f.pop
  let (v2, f) ← f.pop
  return f.pushAll [v1, v2]

def binary (f : Frame) (op : BinaryOp) : Except Fault Frame := do
  let (b, f) ← f.popInt
  let (a, f) ← f.popInt
  return f.push (.int (← op.apply a b))

def unary (f : Frame) (op : UnaryOp) : Except Fault Frame := do
  let (a, f) ← f.popInt
  return f.push (.int (op.apply a))

/-- The frame behind a conditional jump, and whether the jump is taken. -/
def test (f : Frame) : Opcode → Except Fault (Bool × Frame)
  | .ifZero test => do
    let (a, f) ← f.popInt
    return (test.holds a 0, f)
  | .ifInt test => do
    let (b, f) ← f.popInt
    let (a, f) ← f.popInt
    return (test.holds a b, f)
  | .ifRef equal => do
    let (b, f) ← f.popRef
    let (a, f) ← f.popRef
    return ((a == b) == equal, f)
  | .ifNull null => do
    let (a, f) ← f.popRef
    return (a.isNone == null, f)
  | _ => return (true, f)

/-- A jump, taken or not; it needs its target in either case. -/
def branch (f : Frame) (insn : Instruction) : Except Fault Effect := do
  let (taken, f) ← f.test insn.opcode
  let target ← insn.targetOperand
  return if taken then .jump f target else .next f

/-- Checks a value against the descriptor of the field it is written to. -/
def checkField (field : MemberRef) (value : Value) : Except Fault Unit :=
  match Ty.decode field.descriptor.toList with
  | .ok (ty, _) => checkFit ty value
  | .error cause => .error (.badFieldType cause)

def getField (f : Frame) (h : Heap) (field : MemberRef) : Except Fault Frame := do
  let (reference, f) ← f.popRef
  let object ← nonNull reference
  let (_, fields) ← h.instanceFields object
  return f.push ((fields.find? field.name).getD (.defaultFor field.descriptor))

def putField (f : Frame) (h : Heap) (field : MemberRef) : Except Fault Effect := do
  let (value, f) ← f.pop
  checkField field value
  let (reference, f) ← f.popRef
  let object ← nonNull reference
  let _ ← h.instanceFields object
  return .write f object (.field field.name value)

/-- Takes the arguments of a call, and the receiver unless it is static. -/
def takeCall (f : Frame) (mode : CallMode) (target : MemberRef) : Except Fault Effect := do
  let descriptor ← (Descriptor.parse target.descriptor).mapError .badDescriptor
  let (args, f) ← f.popArgs descriptor.argCount
  let key := MethodKey.of target.owner target.name target.descriptor
  if mode = .static then return .call f ⟨mode, key, descriptor, none, args⟩
  else
    let (receiver, f) ← f.popRef
    return .call f ⟨mode, key, descriptor, some receiver, args⟩

end Frame

/-! ## One instruction -/

/-- What an instruction comes to in a frame. -/
def Instruction.execute (insn : Instruction) (h : Heap) (f : Frame) : Except Fault Effect :=
  match insn.opcode with
  | .nop => .ok (.next f)
  | .aconstNull => .ok (.next (f.push .null))
  | .iconst | .bipush | .sipush => do
    return .next (f.push (.int (← insn.intOperand 0)))
  | .lconst => do
    return .allocate f (.long (Int64.ofInt (← insn.intOperand 0).toInt))
  | .fconst => do
    return .allocate f
      (.float (UInt32.ofNat (Decimal.single.ofInt (← insn.intOperand 0).toInt)))
  | .dconst => do
    return .allocate f
      (.double (UInt64.ofNat (Decimal.double.ofInt (← insn.intOperand 0).toInt)))
  | .ldc | .ldcW | .ldc2W => do
    return .constant f (← insn.constantOperand)
  | .load slot => do
    return .next (← f.loadSlot slot (← insn.slotOperand))
  | .store slot => do
    let (value, f) ← f.popSlot slot
    return .next (← f.store (← insn.slotOperand) value)
  | .iinc => do
    let index ← insn.slotOperand
    let delta ← insn.intOperand 1
    return .next (← f.increment index delta)
  | .arrayLoad cell => do
    return .next (← f.arrayLoad h cell)
  | .arrayStore cell => f.arrayStore h cell
  | .arrayLength => do
    let (reference, f) ← f.popRef
    let length ← h.arraySize (← nonNull reference)
    return .next (f.push (.int (Int32.ofNat length)))
  | .pop => do
    let (_, f) ← f.pop
    return .next f
  | .pop2 => do return .next (← f.pop2 h)
  | .dup => do return .next (f.push (← f.peek))
  | .dupX1 => do return .next (← f.dupX1)
  | .dupX2 => do return .next (← f.dupX2 h)
  | .dup2 => do return .next (← f.dup2 h)
  | .swap => do return .next (← f.swap)
  | .binary op => do return .next (← f.binary op)
  | .unary op => do return .next (← f.unary op)
  | .ifZero _ | .ifInt _ | .ifRef _ | .ifNull _ | .goto | .gotoW => f.branch insn
  | .returnValue slot => do
    let (value, _) ← f.popSlot slot
    return .leave (some value)
  | .returnVoid => .ok (.leave none)
  | .getStatic => do
    let field ← insn.fieldOperand
    return .touch f field.owner (.getStatic field)
  | .putStatic => do
    let field ← insn.fieldOperand
    let (value, f) ← f.pop
    Frame.checkField field value
    return .touch f field.owner (.putStatic field value)
  | .getField => do
    return .next (← f.getField h (← insn.fieldOperand))
  | .putField => do f.putField h (← insn.fieldOperand)
  | .invoke mode => do f.takeCall mode (← insn.methodOperand)
  | .new => do
    let name ← insn.classOperand
    return .touch f name (.new name)
  | .newArray => do
    let component ← insn.componentOperand
    let (count, f) ← f.popInt
    let length ← newLength count
    return .allocate f (.ints component (.new length))
  | .anewArray => do
    let component ← insn.classOperand
    let (count, f) ← f.popInt
    let length ← newLength count
    return .allocate f (.refs component (.new length))
  | .checkCast => do
    let _ ← f.peek
    return .next f
  | .monitorEnter | .monitorExit => do
    let (reference, f) ← f.popRef
    let _ ← nonNull reference
    return .next f
  | .invokeDynamic | .multiAnewArray | .athrow | .instanceOf | .other _ =>
    .error (.unsupportedOpcode insn.opcode)

end ClassMachine
