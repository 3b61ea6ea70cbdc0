import ClassMachine.Text.Blank
import ClassMachine.Text.Numeral

/-!
# Opcodes

Opcodes are identified by their mnemonic, since listings are text. The
mnemonics that the machine knows are grouped by what they do; every other
mnemonic is kept as `Opcode.other`, so that reading a listing never fails on
an instruction without a meaning here.

`Opcode.family` groups opcodes a second way, by the shape of their operands,
which is what normalization goes by.
-/

namespace ClassMachine

/-! ## Parts of a mnemonic -/

/-- What the leading letter of a load, store or return stands for. -/
inductive Slot where
  | int
  | long
  | float
  | double
  | ref
deriving DecidableEq, Repr

/-- What the leading letter of an array access stands for. -/
inductive Cell where
  | int
  | byte
  | char
  | short
  | ref
deriving DecidableEq, Repr

/-- Binary operators on 32-bit words. -/
inductive BinaryOp where
  | add
  | sub
  | mul
  | div
  | rem
  | shl
  | shr
  | ushr
  | and
  | or
  | xor
deriving DecidableEq, Repr

/-- Unary operators on 32-bit words: negation and the narrowings. -/
inductive UnaryOp where
  | neg
  | toByte
  | toChar
  | toShort
deriving DecidableEq, Repr

/-- Order tests of a conditional jump. -/
inductive Comparison where
  | eq
  | ne
  | lt
  | ge
  | gt
  | le
deriving DecidableEq, Repr

/-- The calls that name a method. -/
inductive CallMode where
  | virtual
  | special
  | static
  | interface
deriving DecidableEq, Repr

/-- An instruction's mnemonic, with forms such as `ILOAD_1` under the base
mnemonic once they are normalized. -/
inductive Opcode where
  | nop
  | aconstNull
  | iconst
  | lconst
  | fconst
  | dconst
  | bipush
  | sipush
  | ldc
  | ldcW
  | ldc2W
  | load (slot : Slot)
  | store (slot : Slot)
  | arrayLoad (cell : Cell)
  | arrayStore (cell : Cell)
  | pop
  | pop2
  | dup
  | dupX1
  | dupX2
  | dup2
  | swap
  | binary (op : BinaryOp)
  | unary (op : UnaryOp)
  | iinc
  | ifZero (test : Comparison)
  | ifInt (test : Comparison)
  | ifRef (equal : Bool)
  | ifNull (null : Bool)
  | goto
  | gotoW
  | returnValue (slot : Slot)
  | returnVoid
  | getStatic
  | putStatic
  | getField
  | putField
  | invoke (mode : CallMode)
  | invokeDynamic
  | new
  | newArray
  | anewArray
  | multiAnewArray
  | arrayLength
  | athrow
  | checkCast
  | instanceOf
  | monitorEnter
  | monitorExit
  /-- A mnemonic without a meaning of its own; in upper case wherever it was read. -/
  | other (name : String)
deriving DecidableEq, Repr

/-! ## Mnemonics -/

def Slot.letter : Slot → String
  | .int => "I"
  | .long => "L"
  | .float => "F"
  | .double => "D"
  | .ref => "A"

def Cell.letter : Cell → String
  | .int => "I"
  | .byte => "B"
  | .char => "C"
  | .short => "S"
  | .ref => "A"

def BinaryOp.mnemonic : BinaryOp → String
  | .add => "IADD"
  | .sub => "ISUB"
  | .mul => "IMUL"
  | .div => "IDIV"
  | .rem => "IREM"
  | .shl => "ISHL"
  | .shr => "ISHR"
  | .ushr => "IUSHR"
  | .and => "IAND"
  | .or => "IOR"
  | .xor => "IXOR"

def UnaryOp.mnemonic : UnaryOp → String
  | .neg => "INEG"
  | .toByte => "I2B"
  | .toChar => "I2C"
  | .toShort => "I2S"

def Comparison.letters : Comparison → String
  | .eq => "EQ"
  | .ne => "NE"
  | .lt => "LT"
  | .ge => "GE"
  | .gt => "GT"
  | .le => "LE"

def CallMode.mnemonic : CallMode → String
  | .virtual => "INVOKEVIRTUAL"
  | .special => "INVOKESPECIAL"
  | .static => "INVOKESTATIC"
  | .interface => "INVOKEINTERFACE"

namespace Opcode

/-- The mnemonic in upper case. -/
def mnemonic : Opcode → String
  | .nop => "NOP"
  | .aconstNull => "ACONST_NULL"
  | .iconst => "ICONST"
  | .lconst => "LCONST"
  | .fconst => "FCONST"
  | .dconst => "DCONST"
  | .bipush => "BIPUSH"
  | .sipush => "SIPUSH"
  | .ldc => "LDC"
  | .ldcW => "LDC_W"
  | .ldc2W => "LDC2_W"
  | .load slot => slot.letter ++ "LOAD"
  | .store slot => slot.letter ++ "STORE"
  | .arrayLoad cell => cell.letter ++ "ALOAD"
  | .arrayStore cell => cell.letter ++ "ASTORE"
  | .pop => "POP"
  | .pop2 => "POP2"
  | .dup => "DUP"
  | .dupX1 => "DUP_X1"
  | .dupX2 => "DUP_X2"
  | .dup2 => "DUP2"
  | .swap => "SWAP"
  | .binary op => op.mnemonic
  | .unary op => op.mnemonic
  | .iinc => "IINC"
  | .ifZero test => "IF" ++ test.letters
  | .ifInt test => "IF_ICMP" ++ test.letters
  | .ifRef true => "IF_ACMPEQ"
  | .ifRef false => "IF_ACMPNE"
  | .ifNull true => "IFNULL"
  | .ifNull false => "IFNONNULL"
  | .goto => "GOTO"
  | .gotoW => "GOTO_W"
  | .returnValue slot => slot.letter ++ "RETURN"
  | .returnVoid => "RETURN"
  | .getStatic => "GETSTATIC"
  | .putStatic => "PUTSTATIC"
  | .getField => "GETFIELD"
  | .putField => "PUTFIELD"
  | .invoke mode => mode.mnemonic
  | .invokeDynamic => "INVOKEDYNAMIC"
  | .new => "NEW"
  | .newArray => "NEWARRAY"
  | .anewArray => "ANEWARRAY"
  | .multiAnewArray => "MULTIANEWARRAY"
  | .arrayLength => "ARRAYLENGTH"
  | .athrow => "ATHROW"
  | .checkCast => "CHECKCAST"
  | .instanceOf => "INSTANCEOF"
  | .monitorEnter => "MONITORENTER"
  | .monitorExit => "MONITOREXIT"
  | .other name => name

/-- Every opcode with a mnemonic of its own. -/
def known : List Opcode :=
  [.nop, .aconstNull, .iconst, .lconst, .fconst, .dconst, .bipush, .sipush, .ldc, .ldcW, .ldc2W,
    .pop, .pop2, .dup, .dupX1, .dupX2, .dup2, .swap, .iinc, .ifRef true, .ifRef false, .ifNull true, .ifNull false, .goto, .gotoW,
    .returnVoid, .getStatic, .putStatic, .getField, .putField, .invokeDynamic, .new, .newArray,
    .anewArray, .multiAnewArray, .arrayLength, .athrow, .checkCast, .instanceOf, .monitorEnter,
    .monitorExit]
  ++ [Slot.int, .long, .float, .double, .ref].flatMap (fun s => [load s, store s, returnValue s])
  ++ [Cell.int, .byte, .char, .short, .ref].flatMap (fun c => [arrayLoad c, arrayStore c])
  ++ [BinaryOp.add, .sub, .mul, .div, .rem, .shl, .shr, .ushr, .and, .or, .xor].map binary
  ++ [UnaryOp.neg, .toByte, .toChar, .toShort].map unary
  ++ [Comparison.eq, .ne, .lt, .ge, .gt, .le].flatMap (fun t => [ifZero t, ifInt t])
  ++ [CallMode.virtual, .special, .static, .interface].map invoke

/-- Text with its ASCII letters in upper case. -/
def upperCase (s : String) : String :=
  String.ofList (s.toList.map Char.toUpper)

/-- The opcode of an upper-case mnemonic. -/
def ofUpperCase (name : String) : Opcode :=
  (known.find? fun op => op.mnemonic == name).getD (.other name)

/-- The opcode of a mnemonic in any mixture of cases. -/
def ofMnemonic (name : String) : Opcode :=
  ofUpperCase (upperCase name)

/-- Splits `iload_2` or `iconst_m1` at its last underscore into the base opcode
and the number behind it. -/
def splitSuffix? (name : String) : Option (Opcode × Int32) := do
  let (base, suffix) ← Text.cutLast? '_' name.toList
  let value ←
    if suffix = ['m', '1'] ∨ suffix = ['M', '1'] then some (-1)
    else if suffix.all Char.isDigit then (Text.Range.int32.read? suffix).map Int32.ofInt
    else none
  return (ofMnemonic (String.ofList base), value)

end Opcode

/-! ## Operand families -/

/-- Opcodes grouped by the shape of their operands. -/
inductive Family where
  /-- An integer that is pushed as it is. -/
  | immediate
  /-- The slot of a local variable, perhaps followed by an increment. -/
  | localVariable
  /-- A literal described by the comment. -/
  | constantLoad
  /-- A jump to an offset. -/
  | controlTransfer
  /-- A field described by the comment. -/
  | fieldAccess
  /-- A method described by the comment. -/
  | invocation
  /-- A class described by the comment. -/
  | typeReference
  /-- Operands without a meaning of their own. -/
  | plain
deriving DecidableEq, Repr

def Opcode.family : Opcode → Family
  | .iconst | .bipush | .sipush => .immediate
  | .load _ | .store _ | .iinc => .localVariable
  | .ldc | .ldcW | .ldc2W => .constantLoad
  | .ifZero _ | .ifInt _ | .ifRef _ | .ifNull _ | .goto | .gotoW => .controlTransfer
  | .getStatic | .putStatic | .getField | .putField => .fieldAccess
  | .invoke _ | .invokeDynamic => .invocation
  | .new | .anewArray | .multiAnewArray | .checkCast | .instanceOf => .typeReference
  | _ => .plain

end ClassMachine
