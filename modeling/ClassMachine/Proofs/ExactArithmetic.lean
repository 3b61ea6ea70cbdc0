import ClassMachine.Machine.Word
import Mathlib.Data.Int.Bitwise

/-!
# Words and exact integers

The operators on words are those on integers, reduced to the signed range of 32 bits.

* `BinaryOp.exact` and `UnaryOp.exact`: the operators on integers. Quotients are cut toward
  zero, remainders have the sign of the dividend, shift distances count modulo 32, and the
  logical shift works on the number that the bits of a negative one stand for.
* `BinaryOp.apply_exact` and `UnaryOp.apply_exact`: the operators on words agree, unless
  a divisor is zero (`BinaryOp.apply_zero`).
-/

namespace ClassMachine

/-- The number in the signed range of 32 bits that differs by a multiple of `2 ^ 32`. -/
def wrap (n : Int) : Int :=
  n.bmod (2 ^ 32)

theorem wrap_toInt (a : Int32) : wrap a.toInt = a.toInt :=
  a.toInt_bmod

/-- Operators that divide. -/
def BinaryOp.divides : BinaryOp → Bool
  | .div | .rem => true
  | _ => false

/-- A binary operator on integers. -/
def BinaryOp.exact (op : BinaryOp) (a b : Int) : Int :=
  let distance := (b % 32).toNat
  match op with
  | .add => a + b
  | .sub => a - b
  | .mul => a * b
  | .div => a.tdiv b
  | .rem => a.tmod b
  | .shl => a * 2 ^ distance
  | .shr => a / 2 ^ distance
  | .ushr => a % 2 ^ 32 / 2 ^ distance
  | .and => a.land b
  | .or => a.lor b
  | .xor => a.xor b

/-- A unary operator on integers, reduced to the range of its result. -/
def UnaryOp.exact : UnaryOp → Int → Int
  | .neg, a => wrap (-a)
  | .toByte, a => a.bmod (2 ^ 8)
  | .toChar, a => a % 2 ^ 16
  | .toShort, a => a.bmod (2 ^ 16)

/-! ## Bits -/

section Bits

variable {w : Nat}

/-- Integers with the same bits, of which there are infinitely many, are the same. -/
theorem int_eq_of_testBit_eq {a b : Int} (same : ∀ i, a.testBit i = b.testBit i) : a = b := by
  have high (n k : Nat) : n.testBit (n + k) = false :=
    Nat.testBit_lt_two_pow (Nat.lt_of_le_of_lt (Nat.le_add_right n k) Nat.lt_two_pow_self)
  cases a with
  | ofNat m =>
      cases b with
      | ofNat n => exact congrArg Int.ofNat (Nat.eq_of_testBit_eq same)
      | negSucc n =>
          have top := same (m + n)
          rw [Int.testBit, Int.testBit, high m n, Nat.add_comm m n, high n m] at top
          cases top
  | negSucc m =>
      cases b with
      | ofNat n =>
          have top := same (m + n)
          rw [Int.testBit, Int.testBit, high m n, Nat.add_comm m n, high n m] at top
          cases top
      | negSucc n =>
          exact congrArg Int.negSucc (Nat.eq_of_testBit_eq fun i => Bool.not_inj (same i))

/-- The sign of a word goes on for ever. -/
theorem testBit_toInt (x : BitVec w) (i : Nat) :
    x.toInt.testBit i = if i < w then x.getLsbD i else x.msb := by
  rw [BitVec.toInt_eq_msb_cond]
  cases sign : x.msb with
  | false =>
      rw [if_neg Bool.false_ne_true]
      split
      · rfl
      · rename_i high
        exact x.getLsbD_of_ge i (Nat.le_of_not_lt high)
  | true =>
      have complement : (x.toNat : Int) - (2 ^ w : Nat) = Int.negSucc (~~~x).toNat := by
        have := x.isLt
        rw [BitVec.toNat_not, Int.negSucc_eq]
        omega
      have bit : (~~~x).toNat.testBit i = (decide (i < w) && !x.getLsbD i) := by
        rw [BitVec.testBit_toNat, BitVec.getLsbD_not]
      rw [if_pos rfl, complement, Int.testBit, bit]
      split
      · rename_i low
        simp [low]
      · rename_i high
        simp [high]

theorem toInt_and (x y : BitVec w) : (x &&& y).toInt = x.toInt.land y.toInt := by
  refine int_eq_of_testBit_eq fun i => ?_
  simp only [Int.testBit_land, testBit_toInt, BitVec.getLsbD_and, BitVec.msb_and]
  split <;> rfl

theorem toInt_or (x y : BitVec w) : (x ||| y).toInt = x.toInt.lor y.toInt := by
  refine int_eq_of_testBit_eq fun i => ?_
  simp only [Int.testBit_lor, testBit_toInt, BitVec.getLsbD_or, BitVec.msb_or]
  split <;> rfl

theorem toInt_xor (x y : BitVec w) : (x ^^^ y).toInt = x.toInt.xor y.toInt := by
  refine int_eq_of_testBit_eq fun i => ?_
  simp only [Int.testBit_lxor, testBit_toInt, BitVec.getLsbD_xor, BitVec.msb_xor]
  split <;> rfl

end Bits

/-! ## Words -/

/-- The number that the bits of a word stand for without a sign. -/
theorem toNat_toUInt32 (a : Int32) : (a.toUInt32.toNat : Int) = a.toInt % 2 ^ 32 := by
  have signed : a.toInt = (a.toUInt32.toNat : Int).bmod (2 ^ 32) :=
    a.toBitVec.toInt_eq_toNat_bmod
  have range : a.toUInt32.toNat < 2 ^ 32 := a.toUInt32.toNat_lt
  rw [signed]
  have := Int.bmod_emod (x := a.toUInt32.toNat) (m := 2 ^ 32)
  omega

theorem toInt_toInt32 (a : UInt32) : a.toInt32.toInt = wrap a.toNat :=
  a.toBitVec.toInt_eq_toNat_bmod

theorem toNat_smod (b : Int32) : (b.toBitVec.smod 32).toNat = (b.toInt % 32).toNat := by
  have signed : (b.toBitVec.smod 32).toInt = b.toInt % 32 := by
    rw [BitVec.toInt_smod, Int32.toInt_toBitVec]
    exact Int.fmod_eq_emod_of_nonneg _ (by decide)
  rw [BitVec.toInt_eq_toNat_cond] at signed
  split at signed <;> omega

theorem toInt_shiftLeft (a b : Int32) :
    (a <<< b).toInt = wrap (a.toInt * 2 ^ (b.toInt % 32).toNat) := by
  have signed : a.toInt = (a.toBitVec.toNat : Int).bmod (2 ^ 32) :=
    a.toBitVec.toInt_eq_toNat_bmod
  rw [← Int32.toInt_toBitVec, Int32.toBitVec_shiftLeft, BitVec.shiftLeft_eq', toNat_smod,
    BitVec.toInt_shiftLeft, Nat.shiftLeft_eq, Nat.cast_mul, Nat.cast_pow, wrap, signed,
    Int.bmod_mul_bmod]
  rfl

theorem toInt_shiftRight (a b : Int32) :
    (a >>> b).toInt = a.toInt / 2 ^ (b.toInt % 32).toNat := by
  rw [← Int32.toInt_toBitVec, Int32.toBitVec_shiftRight, BitVec.sshiftRight_eq', toNat_smod,
    BitVec.toInt_sshiftRight, Int.shiftRight_eq_div_pow, Nat.cast_pow]
  rfl

theorem toInt_ushiftRight (a b : Int32) :
    (a.toUInt32 >>> b.toUInt32).toInt32.toInt =
      wrap (a.toInt % 2 ^ 32 / 2 ^ (b.toInt % 32).toNat) := by
  have distance : b.toUInt32.toNat % 32 = (b.toInt % 32).toNat := by
    have := toNat_toUInt32 b
    omega
  rw [toInt_toInt32, UInt32.toNat_shiftRight, distance, Nat.shiftRight_eq_div_pow,
    Int.natCast_ediv, toNat_toUInt32, Nat.cast_pow]
  rfl

theorem toInt_narrowChar (a : Int32) : (narrowChar a).toInt = a.toInt % 2 ^ 16 := by
  have low : a.toUInt32.toUInt16.toUInt32.toNat = a.toUInt32.toNat % 2 ^ 16 := by
    rw [UInt16.toNat_toUInt32, UInt32.toNat_toUInt16]
  have whole := toNat_toUInt32 a
  rw [narrowChar, toInt_toInt32, low, wrap]
  have small : a.toUInt32.toNat % 2 ^ 16 < 2 ^ 16 := Nat.mod_lt _ (by decide)
  rw [Int.bmod_eq_of_le_mul_two] <;> omega
/-! ## Operators -/

/-- A word stands for zero only if it is zero. -/
theorem eq_zero_iff {b : Int32} : b = 0 ↔ b.toInt = 0 :=
  Int32.toInt_inj.symm

theorem BinaryOp.apply_zero {op : BinaryOp} {a b : Int32} (divides : op.divides = true)
    (zero : b.toInt = 0) : op.apply a b = .error .divisionByZero := by
  cases op <;> cases divides <;> exact if_pos (eq_zero_iff.2 zero)

/-- Each operator computes what it computes on integers, reduced to 32 bits. -/
theorem BinaryOp.apply_exact {op : BinaryOp} {a b : Int32}
    (defined : op.divides = true → b.toInt ≠ 0) :
    ∃ word, op.apply a b = .ok word ∧ word.toInt = wrap (op.exact a.toInt b.toInt) := by
  have reduced {word : Int32} {n : Int} (same : word.toInt = n) : word.toInt = wrap n := by
    rw [← same, wrap_toInt]
  cases op with
  | add => exact ⟨_, rfl, a.toInt_add b⟩
  | sub => exact ⟨_, rfl, a.toInt_sub b⟩
  | mul => exact ⟨_, rfl, a.toInt_mul b⟩
  | div => exact ⟨_, if_neg fun zero => defined rfl (eq_zero_iff.1 zero), a.toInt_div b⟩
  | rem =>
      exact ⟨_, if_neg fun zero => defined rfl (eq_zero_iff.1 zero), reduced (a.toInt_mod b)⟩
  | shl => exact ⟨_, rfl, toInt_shiftLeft a b⟩
  | shr => exact ⟨_, rfl, reduced (toInt_shiftRight a b)⟩
  | ushr => exact ⟨_, rfl, toInt_ushiftRight a b⟩
  | and => exact ⟨_, rfl, reduced (toInt_and a.toBitVec b.toBitVec)⟩
  | or => exact ⟨_, rfl, reduced (toInt_or a.toBitVec b.toBitVec)⟩
  | xor => exact ⟨_, rfl, reduced (toInt_xor a.toBitVec b.toBitVec)⟩

theorem UnaryOp.apply_exact (op : UnaryOp) (a : Int32) :
    (op.apply a).toInt = op.exact a.toInt := by
  cases op with
  | neg => exact a.toInt_neg
  | toByte =>
      show (narrowByte a).toInt = a.toInt.bmod (2 ^ 8)
      rw [narrowByte, Int8.toInt_toInt32, Int32.toInt_toInt8]
  | toChar => exact toInt_narrowChar a
  | toShort =>
      show (narrowShort a).toInt = a.toInt.bmod (2 ^ 16)
      rw [narrowShort, Int16.toInt_toInt32, Int32.toInt_toInt16]

end ClassMachine
