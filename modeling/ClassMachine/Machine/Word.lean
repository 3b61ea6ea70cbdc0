import ClassMachine.Fault

/-!
# Arithmetic on words

The operators of integer instructions. Arithmetic wraps around at 32 bits,
quotients are cut toward zero, and shift distances count modulo 32.
-/

namespace ClassMachine

/-- The result of a binary operator; only division by zero has none. -/
def BinaryOp.apply (op : BinaryOp) (a b : Int32) : Except Fault Int32 :=
  match op with
  | .add => .ok (a + b)
  | .sub => .ok (a - b)
  | .mul => .ok (a * b)
  | .div => if b = 0 then .error .divisionByZero else .ok (a / b)
  | .rem => if b = 0 then .error .divisionByZero else .ok (a % b)
  | .shl => .ok (a <<< b)
  | .shr => .ok (a >>> b)
  | .ushr => .ok (a.toUInt32 >>> b.toUInt32).toInt32
  | .and => .ok (a &&& b)
  | .or => .ok (a ||| b)
  | .xor => .ok (a ^^^ b)

/-- The low byte of a word as a signed number. -/
def narrowByte (a : Int32) : Int32 :=
  a.toInt8.toInt32

/-- The low 16 bits of a word as a number that is not negative. -/
def narrowChar (a : Int32) : Int32 :=
  a.toUInt32.toUInt16.toUInt32.toInt32

/-- The low 16 bits of a word as a signed number. -/
def narrowShort (a : Int32) : Int32 :=
  a.toInt16.toInt32

def UnaryOp.apply : UnaryOp → Int32 → Int32
  | .neg, a => -a
  | .toByte, a => narrowByte a
  | .toChar, a => narrowChar a
  | .toShort, a => narrowShort a

def Comparison.holds : Comparison → Int32 → Int32 → Bool
  | .eq, a, b => a == b
  | .ne, a, b => a != b
  | .lt, a, b => a < b
  | .ge, a, b => b ≤ a
  | .gt, a, b => b < a
  | .le, a, b => a ≤ b

/-- The part of a word that an element of an integer array keeps. It depends on
the storing instruction, and for bytes on whether the array holds truth values. -/
def Cell.narrow (cell : Cell) (component : TyKind) (value : Int32) : Int32 :=
  match cell with
  | .byte => if component = .boolean then value &&& 1 else narrowByte value
  | .char => narrowChar value
  | .short => narrowShort value
  | .int | .ref => value

end ClassMachine
