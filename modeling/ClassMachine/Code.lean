import ClassMachine.Opcode
import ClassMachine.Ty
import ClassMachine.Decimal.Layout
import ClassMachine.Text.Quoted

/-!
# Code of classes

A class is a name, the name of its superclass and a list of methods; a method
is a list of instructions with the numbers that size its frames. The same
types hold code as it was read, with offsets and pool tokens among the
operands, and code that is ready to run, where normalization has replaced
both.
-/

namespace ClassMachine

/-- The superclass of a class that names none. -/
def rootClass : String :=
  "java/lang/Object"

/-! ## Flags -/

/-- Access flags of a method, in the order in which they are listed. -/
inductive Flag where
  | accPublic
  | accPrivate
  | accProtected
  | accStatic
  | accFinal
  | accSynchronized
  | accBridge
  | accVarargs
  | accNative
  | accAbstract
  | accStrict
  | accSynthetic
deriving DecidableEq, Repr

namespace Flag

/-- Every flag, in order. -/
def all : List Flag :=
  [.accPublic, .accPrivate, .accProtected, .accStatic, .accFinal, .accSynchronized, .accBridge,
    .accVarargs, .accNative, .accAbstract, .accStrict, .accSynthetic]

theorem mem_all (flag : Flag) : flag ∈ all := by
  cases flag <;> decide

/-- The token of a flag in listings and manifests. -/
def token : Flag → String
  | .accPublic => "ACC_PUBLIC"
  | .accPrivate => "ACC_PRIVATE"
  | .accProtected => "ACC_PROTECTED"
  | .accStatic => "ACC_STATIC"
  | .accFinal => "ACC_FINAL"
  | .accSynchronized => "ACC_SYNCHRONIZED"
  | .accBridge => "ACC_BRIDGE"
  | .accVarargs => "ACC_VARARGS"
  | .accNative => "ACC_NATIVE"
  | .accAbstract => "ACC_ABSTRACT"
  | .accStrict => "ACC_STRICT"
  | .accSynthetic => "ACC_SYNTHETIC"

/-- The flag of a token. -/
def ofToken? (token : String) : Option Flag :=
  all.find? fun flag => flag.token == token

end Flag

/-- A set of flags, given by its members. -/
@[ext]
structure FlagSet where
  has : Flag → Bool

namespace FlagSet

def empty : FlagSet :=
  ⟨fun _ => false⟩

/-- The flags of a list. -/
def ofList (flags : List Flag) : FlagSet :=
  ⟨fun flag => flags.contains flag⟩

/-- The members in order. -/
def toList (set : FlagSet) : List Flag :=
  Flag.all.filter set.has

/-- A set is determined by its members in order. -/
theorem ofList_toList (set : FlagSet) : ofList set.toList = set := by
  ext flag
  cases h : set.has flag <;> simp [ofList, toList, Flag.mem_all, h]

instance : DecidableEq FlagSet := fun a b =>
  decidable_of_iff (a.toList = b.toList)
    ⟨fun h => by rw [← ofList_toList a, h, ofList_toList], fun h => by rw [h]⟩

end FlagSet

/-! ## Operands -/

/-- A field or method by owner, name and descriptor. -/
structure MemberRef where
  owner : String
  name : String
  descriptor : String
deriving DecidableEq, Repr

def MemberRef.text (r : MemberRef) : String :=
  r.owner ++ "." ++ r.name ++ ":" ++ r.descriptor

/-- A literal. Binary numbers are held as words. -/
inductive Constant where
  | string (text : String)
  | int (value : Int32)
  | float (word : UInt32)
  | long (value : Int64)
  | double (word : UInt64)
  | classRef (name : String)
deriving DecidableEq, Repr

/-- Literals are set out in positions, without a decimal place they do not need. -/
def Constant.layout : Decimal.Layout where
  positional _ := true
  keepPlace := false
  plusSign := false
  tie := .up

/-- A literal as it is shown in messages. -/
def Constant.text : Constant → String
  | .string text => Text.quoted text
  | .int value => toString value.toInt
  | .float word => layout.text Decimal.single word.toNat ++ "f"
  | .long value => toString value.toInt ++ "l"
  | .double word => layout.text Decimal.double word.toNat ++ "d"
  | .classRef name => name ++ ".class"

/-- An operand of an instruction. -/
inductive Operand where
  | int (value : Int32)
  | slot (index : UInt16)
  /-- The index of the instruction to jump to. -/
  | target (index : Nat)
  | constant (value : Constant)
  | field (ref : MemberRef)
  | method (ref : MemberRef)
  | classRef (name : String)
  /-- Text without a recognized form. -/
  | raw (text : String)
  /-- A constant pool token, only in code that is not normalized. -/
  | pool (index : UInt16)
  /-- The offset to jump to, only in code that is not normalized. -/
  | offset (position : UInt32)
deriving DecidableEq, Repr

namespace Operand

/-- Operands that normalized code does not hold. -/
def isUnresolved : Operand → Bool
  | .pool _ | .offset _ => true
  | _ => false

/-- An operand as it is shown in messages. -/
def text : Operand → String
  | .int value => toString value.toInt
  | .slot index => "local " ++ toString index.toNat
  | .target index => "-> #" ++ toString index
  | .constant value => value.text
  | .field ref => "field " ++ ref.text
  | .method ref => "method " ++ ref.text
  | .classRef name => "class " ++ name
  | .raw text => "raw " ++ Text.quoted text
  | .pool index => "#" ++ toString index.toNat
  | .offset position => "-> @" ++ toString position.toNat

/-- Operands as they are shown in messages. -/
def textOfList (operands : List Operand) : String :=
  String.intercalate ", " (operands.map text)

end Operand

/-! ## Methods and classes -/

/-- One instruction. Its offset serves for messages once jumps are resolved. -/
structure Instruction where
  offset : UInt32
  opcode : Opcode
  operands : List Operand
  comment : Option String := none
deriving DecidableEq, Repr

/-- A method with a body. -/
structure MethodCode where
  name : String
  descriptor : String
  flags : FlagSet
  maxStack : UInt16
  maxLocals : UInt16
  argsSize : UInt16
  instructions : List Instruction
deriving DecidableEq

def MethodCode.isStatic (m : MethodCode) : Bool :=
  m.flags.has .accStatic

/-- A class. -/
structure ClassCode where
  name : String
  superName : String
  methods : List MethodCode
deriving DecidableEq

/-- The first method of that name and descriptor. -/
def ClassCode.method? (c : ClassCode) (name descriptor : String) : Option MethodCode :=
  c.methods.find? fun m => m.name == name && m.descriptor == descriptor

end ClassMachine
