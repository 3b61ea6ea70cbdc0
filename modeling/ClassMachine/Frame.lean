import ClassMachine.Fault

/-!
# Frames

A frame holds what one call works on: its local variables, its operand stack
and the instruction it is at. The stack is a list with the top first. A local
variable that was never written is `none`.
-/

namespace ClassMachine

/-- One call of a method. -/
structure Frame where
  locals : Array (Option Value)
  stack : List Value
  ip : Nat
  method : LoadedMethod
  receiver : Option Nat
deriving DecidableEq

namespace Frame

/-! ## The operand stack -/

def push (f : Frame) (value : Value) : Frame :=
  { f with stack := value :: f.stack }

/-- Puts values on the stack, the last one on top. -/
def pushAll (f : Frame) (values : List Value) : Frame :=
  { f with stack := values.reverse ++ f.stack }

def pop (f : Frame) : Except Fault (Value × Frame) :=
  match f.stack with
  | value :: stack => .ok (value, { f with stack })
  | [] => .error .popEmpty

/-- The frame without the value on top, which is also what a pop leaves that finds
a value of the wrong kind. -/
def dropTop (f : Frame) : Frame :=
  { f with stack := f.stack.tail }

def peek (f : Frame) : Except Fault Value :=
  match f.stack with
  | value :: _ => .ok value
  | [] => .error .peekEmpty

def popInt (f : Frame) : Except Fault (Int32 × Frame) := do
  match ← f.pop with
  | (.int value, f) => return (value, f)
  | (found, _) => throw (.notInt found)

/-- Pops a reference, `none` for null. -/
def popRef (f : Frame) : Except Fault (Option Nat × Frame) := do
  match ← f.pop with
  | (.ref index, f) => return (some index, f)
  | (.null, f) => return (none, f)
  | (found, _) => throw (.notReference found)

/-- Pops the topmost values, in the order in which they were pushed. -/
def popArgs (f : Frame) (count : Nat) : Except Fault (List Value × Frame) :=
  if f.stack.length < count then .error (.missingArguments count f.stack.length)
  else .ok ((f.stack.take count).reverse, { f with stack := f.stack.drop count })

/-! ## Local variables -/

def load (f : Frame) (index : Nat) : Except Fault Value :=
  match f.locals[index]? with
  | some (some value) => .ok value
  | some none => .error (.unsetLocal index)
  | none => .error (.localOutOfRange index f.locals.size)

def store (f : Frame) (index : Nat) (value : Value) : Except Fault Frame :=
  if index < f.locals.size then
    .ok { f with locals := f.locals.setIfInBounds index (some value) }
  else .error (.localOutOfRange index f.locals.size)

/-! ## New frames -/

/-- Checks that a parameter or field of the type can hold the value. -/
def checkFit (ty : Ty) (value : Value) : Except Fault Unit :=
  if value.fits ty then .ok () else .error (.misfit ty value)

/-- Stores arguments from a slot on; long and double ones take two slots. -/
def placeArgs : Frame → (slot : Nat) → List Ty → List Value → Except Fault Frame
  | f, slot, ty :: types, value :: values => do
    checkFit ty value
    let f ← f.store slot value
    f.placeArgs (slot + ty.slots) types values
  | f, _, _, _ => .ok f

/-- Stores the receiver in the first slot, and gives the slot behind it. -/
def placeReceiver (f : Frame) : Option Value → Except Fault (Nat × Frame)
  | none => .ok (0, f)
  | some (.ref index) => do
    let f ← Frame.store { f with receiver := some index } 0 (.ref index)
    return (1, f)
  | some found => .error (.badReceiver found)

/-- The frame in which a call of the method starts. -/
def enter (method : LoadedMethod) (receiver : Option Value) (args : List Value) :
    Except Fault Frame :=
  if args.length ≠ method.descriptor.argCount then
    .error (.argumentCount method.key method.descriptor.argCount args.length)
  else do
    let f : Frame :=
      { locals := Array.replicate method.code.maxLocals.toNat none
        stack := []
        ip := 0
        method
        receiver := none }
    let (slot, f) ← f.placeReceiver receiver
    f.placeArgs slot method.descriptor.params args

/-- The frame at the next instruction. -/
def advance (f : Frame) : Frame :=
  { f with ip := f.ip + 1 }

/-- The instruction that the frame is at, as a location. -/
def location (f : Frame) : Location :=
  Location.of f.method f.ip

end Frame

end ClassMachine
