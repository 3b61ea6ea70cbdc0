import ClassMachine.Decimal.Binary
import ClassMachine.Text.Numeral

/-!
# JSON numbers

A literal without fraction and exponent is a whole number if 64 bits hold it.
Every other literal is a binary number: as many digits as 64 bits hold, scaled
by the power of ten that the point, the exponent and the dropped digits leave,
with one rounding for each of the two. A literal that overflows has no value.
-/

namespace ClassMachine.Json

open Decimal (Format double)

/-- The parts of a number literal. -/
structure Literal where
  negative : Bool
  whole : List Char
  fraction : List Char
  /-- Whether the exponent is negative, and its digits. -/
  exponent : Option (Bool × List Char)
deriving DecidableEq, Repr

/-- The value of a literal. -/
inductive Numeric where
  | whole (n : Int)
  /-- The word of a binary number of 64 bits. -/
  | real (word : Nat)
deriving DecidableEq, Repr

/-! ## Parts of a literal -/

/-- Divides digits at the front from what follows them. -/
def takeDigits (cs : List Char) : List Char × List Char :=
  cs.span Char.isDigit

/-- Reads the digits before the point: a zero or digits that start otherwise. -/
def takeWhole? : List Char → Option (List Char × List Char)
  | '0' :: cs => some (['0'], cs)
  | cs =>
    match takeDigits cs with
    | ([], _) => none
    | (digits, rest) => some (digits, rest)

/-- Reads the point and at least one digit behind it, if there is a point. -/
def takeFraction? : List Char → Option (List Char × List Char)
  | '.' :: cs =>
    match takeDigits cs with
    | ([], _) => none
    | (digits, rest) => some (digits, rest)
  | cs => some ([], cs)

/-- Reads the sign of an exponent: whether it is negative. -/
def takeSign : List Char → Bool × List Char
  | '-' :: cs => (true, cs)
  | '+' :: cs => (false, cs)
  | cs => (false, cs)

/-- Reads the mark, the sign and at least one digit, if there is a mark. -/
def takeExponent? : List Char → Option (Option (Bool × List Char) × List Char)
  | [] => some (none, [])
  | c :: cs =>
    if c = 'e' ∨ c = 'E' then
      let (negative, cs) := takeSign cs
      match takeDigits cs with
      | ([], _) => none
      | (digits, rest) => some (some (negative, digits), rest)
    else some (none, c :: cs)

/-- Reads a number literal from the front of a text. -/
def takeLiteral? (cs : List Char) : Option (Literal × List Char) := do
  let (negative, cs) : Bool × List Char :=
    match cs with
    | '-' :: cs => (true, cs)
    | cs => (false, cs)
  let (whole, cs) ← takeWhole? cs
  let (fraction, cs) ← takeFraction? cs
  let (exponent, cs) ← takeExponent? cs
  return (⟨negative, whole, fraction, exponent⟩, cs)

/-! ## Values of literals -/

/-- Takes digits onto a significand for as long as 64 bits hold it: the
significand, the number of digits taken and the digits left. -/
def absorb : Nat → List Char → Nat × Nat × List Char
  | acc, [] => (acc, 0, [])
  | acc, c :: cs =>
    let next := acc * 10 + (c.toNat - '0'.toNat)
    if UInt64.size ≤ next then (acc, 0, c :: cs)
    else
      let (significand, taken, rest) := absorb next cs
      (significand, taken + 1, rest)

/-- The product or quotient of two positive words of 64 bits, rounded once. -/
def scaleWord (word power : Nat) (divide : Bool) : Nat :=
  match double.decode word, double.decode power with
  | .finite _ m q, .finite _ n r =>
    if divide then
      let (up, down) := Decimal.scale 2 (q - r)
      double.round (m * up) (n * down)
    else
      let (up, down) := Decimal.scale 2 (q + r)
      double.round (m * n * up) down
  | _, _ => double.infinity

/-- A word scaled by `10 ^ e`. One step scales by at most `10 ^ 308`; three
steps down leave nothing of any significand. -/
def scaleTen? : (fuel : Nat) → (word : Nat) → (e : Int) → Option Nat
  | 0, _, _ => some 0
  | fuel + 1, word, e =>
    if e.natAbs ≤ 308 then
      let scaled := scaleWord word (double.ofDecimal 1 e.natAbs) (e < 0)
      if scaled = double.infinity then none else some scaled
    else if word = 0 then some 0
    else if 0 ≤ e then none
    else scaleTen? fuel (scaleWord word (double.ofDecimal 1 308) true) (e + 308)

namespace Literal

/-- The binary number of a literal, without its sign. -/
def magnitude? (l : Literal) : Option Nat :=
  let (significand, _, dropped) := absorb 0 l.whole
  let (significand, places, _) := absorb significand l.fraction
  let shift : Int := (dropped.length : Int) - places
  let word := double.ofInt significand
  match l.exponent with
  | none => scaleTen? 4 word shift
  | some (negative, digits) =>
    match Text.Range.int32.read? digits with
    | some e => scaleTen? 4 word (if negative then shift - e else shift + e)
    | none => if significand = 0 ∨ negative then some 0 else none

/-- The value of a literal, unless it overflows. -/
def value? (l : Literal) : Option Numeric :=
  let n := l.whole.foldl (fun acc c => acc * 10 + (c.toNat - '0'.toNat)) 0
  let isWhole := l.fraction.isEmpty && l.exponent.isNone
  if isWhole && !l.negative && n < UInt64.size then some (.whole n)
  else if isWhole && l.negative && 0 < n && n ≤ UInt64.size / 2 then some (.whole (-n))
  else l.magnitude?.map fun word => .real (double.signed l.negative word)

end Literal

/-- The value of the literal that takes up the whole text. -/
def numeric? (literal : String) : Option Numeric :=
  match takeLiteral? literal.toList with
  | some (l, []) => l.value?
  | _ => none

end ClassMachine.Json
