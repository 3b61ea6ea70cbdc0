import ClassMachine.Decimal.Binary
import ClassMachine.Text.Numeral

/-!
# Decimals in text

A sign, digits with at most one point among them, and perhaps an exponent; or
one of the words for what is not finite, in any case. The result is the
nearest word of the format.
-/

namespace ClassMachine.Decimal

/-- The number that a list of ASCII digits stands for. -/
def ofDigits (cs : List Char) : Nat :=
  cs.foldl (fun acc c => acc * 10 + (c.toNat - '0'.toNat)) 0

/-- The exponent behind a significand: none, or a mark, a sign and digits. -/
def readExponent? : List Char → Option Int
  | [] => some 0
  | mark :: cs =>
    if mark = 'e' ∨ mark = 'E' then
      let (negative, digits) : Bool × List Char :=
        match cs with
        | '-' :: ds => (true, ds)
        | '+' :: ds => (false, ds)
        | ds => (false, ds)
      if digits.isEmpty || !digits.all Char.isDigit then none
      else if negative then some (-(ofDigits digits : Int))
      else some (ofDigits digits)
    else none

/-- The fraction at the front of a text, and what follows it. -/
def readFraction : List Char → List Char × List Char
  | '.' :: cs => cs.span Char.isDigit
  | cs => ([], cs)

/-- A decimal without a sign. -/
def readUnsigned? (f : Format) (cs : List Char) : Option Nat := do
  let (whole, cs) := cs.span Char.isDigit
  let (fraction, cs) := readFraction cs
  if whole.isEmpty && fraction.isEmpty then none
  else
    let e ← readExponent? cs
    return f.ofDecimal (ofDigits (whole ++ fraction)) (e - fraction.length)

/-- The word for what is not finite, if the text is such a word. -/
def readWord? (f : Format) (cs : List Char) : Option Nat :=
  let lower := String.ofList (cs.map Char.toLower)
  if lower = "inf" ∨ lower = "infinity" then some f.infinity
  else if lower = "nan" then some f.quiet
  else none

/-- The word of the format that a text stands for. -/
def read? (f : Format) (cs : List Char) : Option Nat :=
  let (negative, cs) : Bool × List Char :=
    match cs with
    | '-' :: cs => (true, cs)
    | '+' :: cs => (false, cs)
    | cs => (false, cs)
  ((readWord? f cs).or (readUnsigned? f cs)).map (f.signed negative)

end ClassMachine.Decimal
