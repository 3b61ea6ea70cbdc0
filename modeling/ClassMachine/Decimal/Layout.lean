import ClassMachine.Decimal.Shortest

/-!
# Decimal layouts

How a decimal is set out as text: up to which exponents it is written in
positions, whether whole numbers keep a decimal place, how an exponent is
written and which way halves go. A layout is a record, and each output format
names its own.
-/

namespace ClassMachine.Decimal

/-- The decisions of an output format about decimals. The exponent asked for is
that of the leading digit. -/
structure Layout where
  positional : Int → Bool
  keepPlace : Bool
  plusSign : Bool
  tie : Tie

namespace Layout

/-- A decimal in positions: digits, zeros and a point. -/
def positions (layout : Layout) (digits : List Char) (e : Int) : List Char :=
  let place := if layout.keepPlace then ['.', '0'] else []
  if e < 0 then
    ['0', '.'] ++ List.replicate (-e - 1).toNat '0' ++ digits
  else
    let whole := e.toNat + 1
    if digits.length ≤ whole then
      digits ++ List.replicate (whole - digits.length) '0' ++ place
    else
      digits.take whole ++ ['.'] ++ digits.drop whole

/-- A decimal with one digit before the point and an exponent. -/
def scientific (layout : Layout) (digits : List Char) (e : Int) : List Char :=
  let mark := if e < 0 then ['e', '-'] else if layout.plusSign then ['e', '+'] else ['e']
  let fraction := if digits.length ≤ 1 then [] else '.' :: digits.drop 1
  digits.take 1 ++ fraction ++ mark ++ Nat.toDigits 10 e.natAbs

/-- The decimal whose leading digit has the exponent `e`. -/
def decimal (layout : Layout) (digits : List Char) (e : Int) : List Char :=
  if layout.positional e then layout.positions digits e else layout.scientific digits e

/-- The text of a finite number. -/
def finite (layout : Layout) (f : Format) (negative : Bool) (m : Nat) (q : Int) : String :=
  let sign := if negative then ['-'] else []
  if m = 0 then
    String.ofList (sign ++ layout.positions ['0'] 0)
  else
    let short := shortest f layout.tie m q
    let digits := Nat.toDigits 10 short.digits
    String.ofList (sign ++ layout.decimal digits (short.exponent + (digits.length - 1 : Nat)))

/-- The text of a word, with a word for what is not finite. -/
def text (layout : Layout) (f : Format) (word : Nat) : String :=
  match f.decode word with
  | .finite negative m q => layout.finite f negative m q
  | .infinite negative => if negative then "-inf" else "inf"
  | .notANumber => "NaN"

/-- The text of a word, if it stands for a finite number. -/
def finite? (layout : Layout) (f : Format) (word : Nat) : Option String :=
  match f.decode word with
  | .finite negative m q => some (layout.finite f negative m q)
  | _ => none

end Layout

end ClassMachine.Decimal
