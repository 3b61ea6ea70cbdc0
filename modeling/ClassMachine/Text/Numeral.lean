/-!
# Whole numbers in text

Decimal numbers of a fixed range. A sign may stand in front, a minus only
where the range reaches below zero. Digits are the ASCII ones, and the first
character that is out of place or leaves the range decides the error.
-/

namespace ClassMachine.Text

/-- The whole numbers from `least` to `greatest`. -/
structure Range where
  least : Int
  greatest : Int

namespace Range

def uint16 : Range := ⟨0, 0xFFFF⟩
def uint32 : Range := ⟨0, 0xFFFFFFFF⟩
def uint64 : Range := ⟨0, 0xFFFFFFFFFFFFFFFF⟩
def int32 : Range := ⟨-0x80000000, 0x7FFFFFFF⟩
def int64 : Range := ⟨-0x8000000000000000, 0x7FFFFFFFFFFFFFFF⟩

end Range

/-- Why a text is not a number of the range. -/
inductive NumeralError where
  | empty
  | invalidDigit
  | tooLarge
  | tooSmall
deriving DecidableEq, Repr

/-- The wording of each cause. -/
def NumeralError.message : NumeralError → String
  | .empty => "cannot parse integer from empty string"
  | .invalidDigit => "invalid digit found in string"
  | .tooLarge => "number too large to fit in target type"
  | .tooSmall => "number too small to fit in target type"

/-- The value of an ASCII decimal digit. -/
def decimalDigit? (c : Char) : Option Nat :=
  if c.isDigit then some (c.toNat - '0'.toNat) else none

/-- Reads digits onto `acc`, away from zero in the direction of `sign`. -/
def Range.readDigits (range : Range) (sign : Int) : Int → List Char → Except NumeralError Int
  | acc, [] => .ok acc
  | acc, c :: cs =>
    match decimalDigit? c with
    | none => .error .invalidDigit
    | some digit =>
      let next := acc * 10 + sign * digit
      if range.greatest < next then .error .tooLarge
      else if next < range.least then .error .tooSmall
      else range.readDigits sign next cs

/-- Reads a whole number of the range from the whole text. -/
def Range.read (range : Range) : List Char → Except NumeralError Int
  | [] => .error .empty
  | ['+'] => .error .invalidDigit
  | ['-'] => .error .invalidDigit
  | '+' :: cs => range.readDigits 1 0 cs
  | '-' :: cs =>
    if range.least < 0 then range.readDigits (-1) 0 cs else .error .invalidDigit
  | cs => range.readDigits 1 0 cs

/-- Reads a whole number of the range, if the text is one. -/
def Range.read? (range : Range) (cs : List Char) : Option Int :=
  (range.read cs).toOption

/-- The value of a hexadecimal digit of either case. -/
def hexDigit? (c : Char) : Option Nat :=
  if c.isDigit then some (c.toNat - '0'.toNat)
  else if 'a' ≤ c ∧ c ≤ 'f' then some (c.toNat - 'a'.toNat + 10)
  else if 'A' ≤ c ∧ c ≤ 'F' then some (c.toNat - 'A'.toNat + 10)
  else none

/-- The number written by hexadecimal digits of either case, of any length. -/
def readHex? (cs : List Char) : Option Nat :=
  cs.foldlM (fun acc c => (hexDigit? c).map (acc * 16 + ·)) 0

end ClassMachine.Text
