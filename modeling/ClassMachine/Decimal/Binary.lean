/-!
# Binary floating-point words

A format fixes how many bits hold the significand and the exponent. Words are
natural numbers; a finite one stands for `m * 2 ^ q`, exactly. Rounding takes
any quotient of natural numbers to the nearest word, a half to the even one,
so no machine arithmetic is involved anywhere.
-/

namespace ClassMachine.Decimal

/-- A binary format. `precision` counts the leading bit that is not stored. -/
structure Format where
  precision : Nat
  exponentBits : Nat

/-- Words of 32 bits. -/
def single : Format := ⟨24, 8⟩

/-- Words of 64 bits. -/
def double : Format := ⟨53, 11⟩

/-- What a word stands for. -/
inductive Number where
  /-- The number `m * 2 ^ q`, or its negation. -/
  | finite (negative : Bool) (m : Nat) (q : Int)
  | infinite (negative : Bool)
  | notANumber
deriving DecidableEq, Repr

/-! ## Exact quotients -/

/-- The quotient of natural numbers as a whole number, a half to the even one. -/
def roundDiv (num den : Nat) : Nat :=
  let below := num / den
  let twice := 2 * (num % den)
  if twice < den then below
  else if den < twice then below + 1
  else below + below % 2

/-- Two factors that scale by `base ^ e`: one for numerators, one for denominators. -/
def scale (base : Nat) (e : Int) : Nat × Nat :=
  (Nat.pow base e.toNat, Nat.pow base (-e).toNat)

/-- The exponent of the leading bit of a positive quotient. -/
def leadingBit (num den : Nat) : Int :=
  let estimate : Int := (Nat.log2 num : Int) - Nat.log2 den
  let (up, down) := scale 2 estimate
  if num * down < den * up then estimate - 1 else estimate

namespace Format

/-- The weight of one stored unit. -/
def unit (f : Format) : Nat :=
  Nat.pow 2 (f.precision - 1)

/-- The word of positive infinity. -/
def infinity (f : Format) : Nat :=
  (Nat.pow 2 f.exponentBits - 1) * f.unit

/-- The bit that holds the sign. -/
def signBit (f : Format) : Nat :=
  Nat.pow 2 f.exponentBits * f.unit

/-- The word of the quiet value that is not a number. -/
def quiet (f : Format) : Nat :=
  f.infinity + f.unit / 2

/-- The exponent `q` of the smallest words. -/
def leastExponent (f : Format) : Int :=
  3 - (Nat.pow 2 (f.exponentBits - 1) : Nat) - f.precision

/-- The word with the sign added. -/
def signed (f : Format) (negative : Bool) (magnitude : Nat) : Nat :=
  if negative then f.signBit + magnitude else magnitude

/-- What a word stands for. -/
def decode (f : Format) (word : Nat) : Number :=
  let negative := decide (f.signBit ≤ word)
  let magnitude := word % f.signBit
  let exponent := magnitude / f.unit
  let fraction := magnitude % f.unit
  if magnitude = f.infinity then .infinite negative
  else if f.infinity < magnitude then .notANumber
  else if exponent = 0 then .finite negative fraction f.leastExponent
  else .finite negative (f.unit + fraction) (f.leastExponent + exponent - 1)

/-- The word nearest to a quotient, infinity beyond the greatest one. Stored
exponent and significand are added, so that a significand rounded up to the
next power of two carries into the exponent. -/
def round (f : Format) (num den : Nat) : Nat :=
  if num = 0 then 0
  else
    let q := max f.leastExponent (leadingBit num den - (f.precision - 1 : Nat))
    let (up, down) := scale 2 q
    let m := roundDiv (num * down) (den * up)
    min f.infinity ((q - f.leastExponent).toNat * f.unit + m)

/-- The word nearest to `digits * 10 ^ e`. Beyond `10 ^ 400` every format
overflows, and below `10 ^ (-400)` every format vanishes. -/
def ofDecimal (f : Format) (digits : Nat) (e : Int) : Nat :=
  let size : Int := (Nat.toDigits 10 digits).length + e
  if digits = 0 then 0
  else if 400 < size then f.infinity
  else if size < -400 then 0
  else
    let (up, down) := scale 10 e
    f.round (digits * up) down

/-- The word nearest to a whole number. -/
def ofInt (f : Format) (n : Int) : Nat :=
  f.signed (n < 0) (f.round n.natAbs 1)

/-- The word of `f` nearest to what a word of `g` stands for. -/
def convert (f g : Format) (word : Nat) : Nat :=
  match g.decode word with
  | .finite negative m q =>
    let (up, down) := scale 2 q
    f.signed negative (f.round (m * up) down)
  | .infinite negative => f.signed negative f.infinity
  | .notANumber => f.quiet

end Format

end ClassMachine.Decimal
