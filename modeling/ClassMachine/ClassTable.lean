import ClassMachine.FormatError
import ClassMachine.Table

/-!
# Loaded classes

Code that is to run is checked and put into a table. Every method must have
instructions, every jump exactly one target inside its method, and no operand
may be left unresolved. Of two classes of the same name, and of two methods of
a class with the same name and descriptor, the later one counts; ids are given
to all methods in order, so they never repeat.
-/

namespace ClassMachine

/-- A method by the canonical name of its class, its name and its descriptor. -/
structure MethodKey where
  owner : String
  name : String
  descriptor : String
deriving DecidableEq, Repr

namespace MethodKey

/-- The key of a method whose class is spelled in any form. -/
def of (className name descriptor : String) : MethodKey :=
  ⟨canonicalName className, name, descriptor⟩

def text (key : MethodKey) : String :=
  key.owner ++ "." ++ key.name ++ key.descriptor

end MethodKey

/-- A method that can run. -/
structure LoadedMethod where
  id : Nat
  owner : String
  code : MethodCode
  descriptor : Descriptor
deriving DecidableEq

namespace LoadedMethod

def isStatic (m : LoadedMethod) : Bool :=
  m.code.isStatic

/-- The owner, the name and the descriptor of a method. -/
def key (m : LoadedMethod) : MethodKey :=
  ⟨m.owner, m.code.name, m.code.descriptor⟩

end LoadedMethod

/-- A class whose methods can run, by name and descriptor. The superclass plays
no part in finding methods. -/
structure LoadedClass where
  name : String
  superName : String
  methods : Table (String × String) LoadedMethod

def LoadedClass.method? (c : LoadedClass) (name descriptor : String) : Option LoadedMethod :=
  c.methods.find? (name, descriptor)

/-- The loaded classes by canonical name, and the number of methods loaded. -/
structure ClassTable where
  classes : Table String LoadedClass
  methodCount : Nat

namespace ClassTable

def empty : ClassTable :=
  ⟨.empty, 0⟩

/-! ## Checking code -/

/-- What is wrong with one operand of a method of the given length. -/
def operandFlaw? (length : Nat) : Operand → Option LoadFlaw
  | .target index => if length ≤ index then some (.targetOutOfRange index) else none
  | operand => if operand.isUnresolved then some (.unresolvedOperand operand) else none

/-- Whether the operands are those of a resolved jump. -/
def isTarget : List Operand → Bool
  | [.target _] => true
  | _ => false

/-- What is wrong with one instruction of a method of the given length. -/
def instructionFlaw? (length : Nat) (insn : Instruction) : Option LoadFlaw :=
  if insn.opcode.family = .controlTransfer ∧ !isTarget insn.operands then some .noTarget
  else insn.operands.findSome? (operandFlaw? length)

/-- The first instruction with something wrong, counting from an index. -/
def firstFlaw? (length : Nat) : (index : Nat) → List Instruction → Option (Nat × LoadFlaw)
  | _, [] => none
  | index, insn :: rest =>
    match instructionFlaw? length insn with
    | some flaw => some (index, flaw)
    | none => firstFlaw? length (index + 1) rest

/-- What is wrong with a method's instructions, and where. -/
def methodFlaw? (m : MethodCode) : Option (Nat × LoadFlaw) :=
  if m.instructions.isEmpty then some (0, .noInstructions)
  else firstFlaw? m.instructions.length 0 m.instructions

/-! ## Loading -/

/-- Checks a method and reads its descriptor. -/
def loadMethod (owner : String) (id : Nat) (m : MethodCode) : Except FormatError LoadedMethod :=
  match methodFlaw? m with
  | some (index, flaw) => .error (.notNormalized owner m.name index flaw)
  | none =>
    match Descriptor.parse m.descriptor with
    | .error cause => .error (.badDescriptor (owner ++ "." ++ m.name) cause)
    | .ok descriptor => .ok ⟨id, owner, m, descriptor⟩

/-- Loads methods one after the other, with ids from the given one on. -/
def loadMethods (owner : String) :
    Nat → List MethodCode → Table (String × String) LoadedMethod →
      Except FormatError (Table (String × String) LoadedMethod)
  | _, [], table => .ok table
  | id, m :: rest, table => do
    let loaded ← loadMethod owner id m
    loadMethods owner (id + 1) rest (table.insert (m.name, m.descriptor) loaded)

/-- Adds a class in place of any other of the same name. -/
def insert (t : ClassTable) (c : ClassCode) : Except FormatError ClassTable := do
  let name := canonicalName c.name
  let methods ← loadMethods name t.methodCount c.methods .empty
  return {
    classes := t.classes.insert name ⟨name, canonicalName c.superName, methods⟩
    methodCount := t.methodCount + c.methods.length }

/-- Loads classes in order, up to the first error. -/
def load (classes : List ClassCode) : Except FormatError ClassTable :=
  classes.foldlM insert empty

/-! ## Finding -/

/-- The class of a name, in any spelling. -/
def class? (t : ClassTable) (name : String) : Option LoadedClass :=
  t.classes.find? (canonicalName name)

/-- The method of a key. -/
def method? (t : ClassTable) (key : MethodKey) : Option LoadedMethod :=
  (t.classes.find? key.owner).bind fun c => c.method? key.name key.descriptor

/-- The number of classes. -/
def size (t : ClassTable) : Nat :=
  t.classes.size

end ClassTable

end ClassMachine
