import Mathlib
import ClassMachine.Json.Number

/-!
# Rounding to binary words

Words of 64 bits as rational numbers. Rounding a quotient `x` finds a grid `2 ^ q` on
which `x` has at most 53 bits, and on it the nearest multiple (`round_spec`). So a
quotient below the greatest word and half a unit does not become infinite
(`round_lt_infinity`), and the word that it becomes stands for little more than it
(`denotes_round`).
-/

namespace ClassMachine.Decimal

open Format

variable {num den : Nat}

/-! ## Exact quotients -/

theorem scale_pos {base : Nat} (positive : 0 < base) (e : Int) :
    0 < (scale base e).1 ∧ 0 < (scale base e).2 :=
  ⟨Nat.pow_pos positive, Nat.pow_pos positive⟩

theorem scale_eq {base : Nat} (positive : 0 < base) (e : Int) :
    ((scale base e).1 : ℚ) / (scale base e).2 = (base : ℚ) ^ e := by
  have nonzero : (base : ℚ) ≠ 0 := by exact_mod_cast positive.ne'
  have split : e = (e.toNat : Int) - ((-e).toNat : Int) := by omega
  conv_rhs => rw [split, zpow_sub₀ nonzero, zpow_natCast, zpow_natCast]
  simp [scale]

/-- A quotient scaled down is the quotient of the scaled parts. -/
theorem div_scale {base : Nat} (positive : 0 < base) (num den : Nat) (e : Int) :
    ((num * (scale base e).2 : Nat) : ℚ) / (den * (scale base e).1 : Nat)
      = num / den / (base : ℚ) ^ e := by
  rw [← scale_eq positive e, div_div_div_eq]
  push_cast
  rfl

/-- A whole number is at most half a unit away from the quotient it is rounded from. -/
theorem abs_roundDiv_sub_le (num : Nat) (positive : 0 < den) :
    |(roundDiv num den : ℚ) - num / den| ≤ 1 / 2 := by
  have near : |(2 * (den * roundDiv num den) - 2 * num : Int)| ≤ den := by
    have parts : (den * (num / den : Nat) + (num % den : Nat) : Int) = num := by
      exact_mod_cast Nat.div_add_mod num den
    have inside := Nat.mod_lt num positive
    have up : (den * (num / den + 1 : Nat) : Int) = den * (num / den : Nat) + den := by
      push_cast
      ring
    unfold roundDiv
    dsimp only
    rw [abs_le]
    split_ifs with less more
    · omega
    · rw [up]
      omega
    · have half : 2 * (num % den) = den := by omega
      rcases Nat.mod_two_eq_zero_or_one (num / den) with even | odd
      · rw [even, Nat.add_zero]
        omega
      · rw [odd, up]
        omega
  have wide : (0 : ℚ) < den := by exact_mod_cast positive
  have near' : |(2 * (den * roundDiv num den) - 2 * num : ℚ)| ≤ den := by exact_mod_cast near
  have same : (roundDiv num den : ℚ) - num / den
      = (2 * (den * roundDiv num den) - 2 * num) / (2 * den) := by
    field_simp
  rw [same, abs_div, abs_of_pos (by positivity : (0 : ℚ) < 2 * den), div_le_iff₀ (by positivity)]
  linarith

theorem leadingBit_spec (num_pos : 0 < num) (den_pos : 0 < den) :
    (2 : ℚ) ^ leadingBit num den ≤ num / den ∧ (num / den : ℚ) < 2 ^ (leadingBit num den + 1) := by
  have wide : (0 : ℚ) < den := by exact_mod_cast den_pos
  have numLow : (2 : ℚ) ^ (num.log2 : Int) ≤ num := by
    exact_mod_cast Nat.log2_self_le num_pos.ne'
  have numHigh : (num : ℚ) < 2 ^ (num.log2 + 1 : Int) := by
    exact_mod_cast Nat.lt_log2_self
  have denLow : (2 : ℚ) ^ (den.log2 : Int) ≤ den := by
    exact_mod_cast Nat.log2_self_le den_pos.ne'
  have denHigh : (den : ℚ) < 2 ^ (den.log2 + 1 : Int) := by
    exact_mod_cast Nat.lt_log2_self
  -- The lengths alone place the quotient between powers of two that are two apart.
  have low : (2 : ℚ) ^ ((num.log2 : Int) - den.log2 - 1) ≤ num / den := by
    rw [le_div_iff₀ wide]
    calc (2 : ℚ) ^ ((num.log2 : Int) - den.log2 - 1) * den
        ≤ 2 ^ ((num.log2 : Int) - den.log2 - 1) * 2 ^ (den.log2 + 1 : Int) := by gcongr
      _ = 2 ^ (num.log2 : Int) := by
          rw [← zpow_add₀ two_ne_zero]
          congr 1
          ring
      _ ≤ num := numLow
  have high : (num / den : ℚ) < 2 ^ ((num.log2 : Int) - den.log2 + 1) := by
    rw [div_lt_iff₀ wide]
    calc (num : ℚ) < 2 ^ (num.log2 + 1 : Int) := numHigh
      _ = 2 ^ ((num.log2 : Int) - den.log2 + 1) * 2 ^ (den.log2 : Int) := by
          rw [← zpow_add₀ two_ne_zero]
          congr 1
          ring
      _ ≤ 2 ^ ((num.log2 : Int) - den.log2 + 1) * den := by gcongr
  -- The test compares it with the power between them.
  have test : num * (scale 2 ((num.log2 : Int) - den.log2)).2
        < den * (scale 2 ((num.log2 : Int) - den.log2)).1
      ↔ (num / den : ℚ) < 2 ^ ((num.log2 : Int) - den.log2) := by
    obtain ⟨up, down⟩ := scale_pos Nat.two_pos ((num.log2 : Int) - den.log2)
    have up' : (0 : ℚ) < (scale 2 ((num.log2 : Int) - den.log2)).1 := by exact_mod_cast up
    have down' : (0 : ℚ) < (scale 2 ((num.log2 : Int) - den.log2)).2 := by exact_mod_cast down
    have factor := scale_eq Nat.two_pos ((num.log2 : Int) - den.log2)
    rw [Nat.cast_ofNat] at factor
    rw [← factor, div_lt_div_iff₀ wide down', mul_comm ((scale 2 _).1 : ℚ)]
    exact_mod_cast Iff.rfl
  unfold leadingBit
  dsimp only
  split_ifs with less
  · exact ⟨low, by rw [sub_add_cancel]; exact test.1 less⟩
  · exact ⟨not_lt.1 (mt test.2 less), high⟩

/-! ## Words of 64 bits -/

theorem double_unit : double.unit = 2 ^ 52 := rfl

theorem double_infinity : double.infinity = 2047 * 2 ^ 52 := rfl

theorem double_leastExponent : double.leastExponent = -1074 := rfl

/-- What a positive quotient is rounded to: on the grid that the quotient needs at most 53
bits for, and all of them unless it is the finest grid, the nearest multiple. -/
theorem round_spec (num_pos : 0 < num) (den_pos : 0 < den) :
    ∃ i m : Nat, double.round num den = min double.infinity (i * 2 ^ 52 + m) ∧
      |(m : ℚ) - num / den / 2 ^ (i - 1074 : Int)| ≤ 1 / 2 ∧
      (num / den : ℚ) < 2 ^ 53 * 2 ^ (i - 1074 : Int) ∧
      (i = 0 ∨ (2 : ℚ) ^ 52 * 2 ^ (i - 1074 : Int) ≤ num / den) := by
  obtain ⟨low, high⟩ := leadingBit_spec num_pos den_pos
  have grid : (double.precision - 1 : Nat) = 52 := rfl
  -- The grid lies 52 places below the leading bit, but not below the finest one.
  obtain ⟨i, place⟩ : ∃ i : Nat, max (-1074) (leadingBit num den - 52) = (i - 1074 : Int) :=
    ⟨(max (-1074) (leadingBit num den - 52) + 1074).toNat, by omega⟩
  refine ⟨i, roundDiv (num * (scale 2 (i - 1074)).2) (den * (scale 2 (i - 1074)).1), ?_, ?_, ?_, ?_⟩
  · have index : ((i : Int) - 1074 - -1074).toNat = i := by omega
    rw [Format.round, if_neg num_pos.ne', double_leastExponent, grid]
    dsimp only
    rw [Nat.cast_ofNat, place, index, double_unit]
  · have positive := (scale_pos Nat.two_pos ((i : Int) - 1074)).1
    have near := abs_roundDiv_sub_le (num * (scale 2 ((i : Int) - 1074)).2)
      (Nat.mul_pos den_pos positive)
    rwa [div_scale Nat.two_pos, Nat.cast_ofNat] at near
  · calc (num / den : ℚ) < 2 ^ (leadingBit num den + 1) := high
      _ ≤ 2 ^ (53 + (i - 1074) : Int) := zpow_le_zpow_right₀ one_le_two (by omega)
      _ = 2 ^ 53 * 2 ^ (i - 1074 : Int) := zpow_add₀ two_ne_zero _ _
  · rcases Nat.eq_zero_or_pos i with finest | coarser
    · exact Or.inl finest
    · refine Or.inr ?_
      calc (2 : ℚ) ^ 52 * 2 ^ (i - 1074 : Int)
          = 2 ^ (52 + (i - 1074) : Int) := (zpow_add₀ two_ne_zero _ _).symm
        _ ≤ 2 ^ leadingBit num den := zpow_le_zpow_right₀ one_le_two (by omega)
        _ ≤ num / den := low

/-- Quotients below that are rounded to finite words. -/
def overflow : ℚ :=
  (2 ^ 53 - 1 / 2) * 2 ^ 971

theorem overflow_lt : overflow < 2 ^ (1024 : Int) := by
  calc overflow < 2 ^ 53 * 2 ^ 971 := mul_lt_mul_of_pos_right (by norm_num) (by positivity)
    _ = 2 ^ 1024 := (pow_add 2 53 971).symm
    _ = 2 ^ (1024 : Int) := (zpow_natCast 2 1024).symm

theorem round_zero (den : Nat) : double.round 0 den = 0 := rfl

theorem decode_zero : double.decode 0 = .finite false 0 (-1074) := by decide

/-- Less than `2 ^ 53` units of a grid are rounded to at most as many. -/
theorem significand_le {i m : Nat} {x : ℚ} (near : |(m : ℚ) - x / 2 ^ (i - 1074 : Int)| ≤ 1 / 2)
    (high : x < 2 ^ 53 * 2 ^ (i - 1074 : Int)) : m ≤ 2 ^ 53 := by
  obtain ⟨_, above⟩ := abs_le.1 near
  have positive : (0 : ℚ) < 2 ^ (i - 1074 : Int) := by positivity
  have bits : x / 2 ^ (i - 1074 : Int) < 2 ^ 53 := (div_lt_iff₀ positive).2 high
  have below : (m : ℚ) < (2 ^ 53 + 1 : Nat) := by
    push_cast
    linarith
  exact Nat.le_of_lt_succ (Nat.cast_lt.1 below)

/-- **Rounding stays finite** below the greatest word and half a unit. -/
theorem round_lt_infinity (den_pos : 0 < den) (small : (num / den : ℚ) < overflow) :
    double.round num den < double.infinity := by
  rcases Nat.eq_zero_or_pos num with rfl | num_pos
  · rw [round_zero]
    decide
  · obtain ⟨i, m, rounded, near, high, low⟩ := round_spec num_pos den_pos
    obtain ⟨_, above⟩ := abs_le.1 near
    have positive : (0 : ℚ) < 2 ^ (i - 1074 : Int) := by positivity
    have index : i ≤ 2045 := by
      rcases low with finest | low
      · omega
      · have grid : (2 : ℚ) ^ (52 + (i - 1074) : Int) < 2 ^ (1024 : Int) := by
          rw [zpow_add₀ two_ne_zero]
          exact low.trans_lt (small.trans overflow_lt)
        have := (zpow_lt_zpow_iff_right₀ (one_lt_two (α := ℚ))).1 grid
        omega
    -- On the coarsest grid the bound keeps the rounding below the next power of two.
    have fits : m ≤ 2 ^ 53 ∧ (i = 2045 → m < 2 ^ 53) := by
      refine ⟨significand_le near high, ?_⟩
      rintro rfl
      have coarsest : (num / den : ℚ) / 2 ^ ((2045 : Nat) - 1074 : Int) < 2 ^ 53 - 1 / 2 :=
        (div_lt_iff₀ positive).2 small
      have : (m : ℚ) < (2 ^ 53 : Nat) := by
        push_cast
        linarith
      exact Nat.cast_lt.1 this
    rw [rounded, double_infinity]
    omega

/-- The word stands for that number. -/
def Denotes (word : Nat) (x : ℚ) : Prop :=
  ∃ n q, double.decode word = .finite false n q ∧ (n * 2 ^ q : ℚ) = x

theorem Denotes.nonneg {word : Nat} {x : ℚ} (denotes : Denotes word x) : 0 ≤ x := by
  obtain ⟨n, q, _, rfl⟩ := denotes
  positivity

/-- A word of `i` coarsenings of the finest grid and `m` units stands for `m` on that
grid. -/
theorem denotes_pack {i m : Nat} (bits : m ≤ 2 ^ 53) (normal : i = 0 ∨ 2 ^ 52 ≤ m)
    (finite : i * 2 ^ 52 + m < double.infinity) :
    Denotes (i * 2 ^ 52 + m) (m * 2 ^ (i - 1074 : Int)) := by
  have sign : double.signBit = 2048 * 2 ^ 52 := rfl
  rw [double_infinity] at finite
  have magnitude : (i * 2 ^ 52 + m) % double.signBit = i * 2 ^ 52 + m := by
    rw [sign]
    exact Nat.mod_eq_of_lt (by omega)
  have positive : decide (double.signBit ≤ i * 2 ^ 52 + m) = false := by
    rw [sign]
    exact decide_eq_false (by omega)
  unfold Denotes Format.decode
  simp only [magnitude, positive, double_unit, double_infinity, double_leastExponent]
  rw [if_neg (by omega), if_neg (by omega)]
  rcases Nat.lt_or_ge m (2 ^ 52) with small | large
  · -- Fewer bits than the significand has: a number on the finest grid.
    have finest : i = 0 := by omega
    subst finest
    rw [if_pos (by omega)]
    refine ⟨_, _, rfl, ?_⟩
    rw [Nat.zero_mul, Nat.zero_add, Nat.mod_eq_of_lt small]
    rfl
  · rw [if_neg (by omega)]
    rcases Nat.lt_or_eq_of_le bits with inside | full
    · refine ⟨_, _, rfl, ?_⟩
      have exponent : (i * 2 ^ 52 + m) / 2 ^ 52 = i + 1 := by omega
      have fraction : 2 ^ 52 + (i * 2 ^ 52 + m) % 2 ^ 52 = m := by omega
      rw [exponent, fraction]
      congr 2
      omega
    · -- The significand was rounded up to the next power of two.
      subst full
      refine ⟨_, _, rfl, ?_⟩
      have exponent : (i * 2 ^ 52 + 2 ^ 53) / 2 ^ 52 = i + 2 := by omega
      have fraction : 2 ^ 52 + (i * 2 ^ 52 + 2 ^ 53) % 2 ^ 52 = 2 ^ 52 := by omega
      have place : (-1074 + (i + 2 : Nat) - 1 : Int) = (i - 1074) + 1 := by omega
      rw [exponent, fraction, place, zpow_add_one₀ two_ne_zero]
      push_cast
      ring

theorem denotes_zero {x : ℚ} (denotes : Denotes 0 x) : x = 0 := by
  obtain ⟨n, q, decoded, rfl⟩ := denotes
  cases decode_zero.symm.trans decoded
  simp

/-- **What a quotient is rounded to** is at most twice the quotient, and one unit. For a
quotient of at least one the rounding is relatively small, and gives at least one. -/
theorem denotes_round (den_pos : 0 < den) (small : (num / den : ℚ) < overflow) :
    ∃ x, Denotes (double.round num den) x ∧ x ≤ 2 * (num / den) + 1 ∧
      ((1 : ℚ) ≤ num / den → x ≤ num / den * (1 + 1 / 2 ^ 53) ∧ 1 ≤ x) := by
  rcases Nat.eq_zero_or_pos num with rfl | num_pos
  · exact ⟨0, ⟨0, -1074, decode_zero, by norm_num⟩, by norm_num, by norm_num⟩
  · have finite := round_lt_infinity den_pos small
    obtain ⟨i, m, rounded, near, high, low⟩ := round_spec num_pos den_pos
    obtain ⟨below, above⟩ := abs_le.1 near
    have positive : (0 : ℚ) < 2 ^ (i - 1074 : Int) := by positivity
    have fits : m ≤ 2 ^ 53 := significand_le near high
    have normal : i = 0 ∨ 2 ^ 52 ≤ m := by
      refine low.imp_right fun low => ?_
      have : (2 : ℚ) ^ 52 ≤ num / den / 2 ^ (i - 1074 : Int) := (le_div_iff₀ positive).2 low
      have : ((2 ^ 52 : Nat) : ℚ) < (m + 1 : Nat) := by
        push_cast
        linarith
      have := Nat.cast_lt.1 this
      omega
    rw [rounded, min_eq_right (by omega)] at finite ⊢
    refine ⟨_, denotes_pack fits normal finite, ?_⟩
    have excess : (m : ℚ) * 2 ^ (i - 1074 : Int) ≤ num / den + 2 ^ (i - 1074 : Int) / 2 := by
      have : (m : ℚ) ≤ num / den / 2 ^ (i - 1074 : Int) + 1 / 2 := by linarith
      have := mul_le_mul_of_nonneg_right this positive.le
      rwa [add_mul, div_mul_cancel₀ _ positive.ne', one_div_mul_eq_div] at this
    have natural : (0 : ℚ) ≤ num / den := by positivity
    refine ⟨?_, fun large => ?_⟩
    · rcases low with finest | low
      · have tiny : (2 : ℚ) ^ (i - 1074 : Int) ≤ 1 :=
          zpow_le_one_of_nonpos₀ one_le_two (by omega)
        linarith
      · linarith
    · -- A quotient of one or more has all its bits, so half a unit is small beside it.
      have notFinest : (1 : ℚ) < 2 ^ (53 + (i - 1074) : Int) := by
        rw [zpow_add₀ two_ne_zero]
        exact large.trans_lt high
      have place : 0 < (53 + (i - 1074) : Int) := by
        rw [← zpow_zero (2 : ℚ)] at notFinest
        exact (zpow_lt_zpow_iff_right₀ (one_lt_two (α := ℚ))).1 notFinest
      have low : (2 : ℚ) ^ 52 * 2 ^ (i - 1074 : Int) ≤ num / den := low.resolve_left (by omega)
      have bits : (2 ^ 52 : ℚ) ≤ m := by exact_mod_cast normal.resolve_left (by omega)
      refine ⟨by linarith, ?_⟩
      calc (1 : ℚ) ≤ 2 ^ (52 + (i - 1074) : Int) := one_le_zpow₀ one_le_two (by omega)
        _ = 2 ^ 52 * 2 ^ (i - 1074 : Int) := zpow_add₀ two_ne_zero _ _
        _ ≤ m * 2 ^ (i - 1074 : Int) := mul_le_mul_of_nonneg_right bits positive.le

/-! ## Products and quotients of words -/

section Scaling

open Json (scaleWord scaleTen?)

variable {word power fuel : Nat} {x y : ℚ} {e : Int}

theorem scaleWord_mul (left : Denotes word x) (right : Denotes power y) :
    ∃ num den : Nat, 0 < den ∧ (num / den : ℚ) = x * y ∧
      scaleWord word power false = double.round num den := by
  obtain ⟨m, q, decoded, rfl⟩ := left
  obtain ⟨n, r, decoded', rfl⟩ := right
  refine ⟨m * n * (scale 2 (q + r)).1, (scale 2 (q + r)).2, (scale_pos Nat.two_pos _).2, ?_, ?_⟩
  · have factor := scale_eq Nat.two_pos (q + r)
    rw [Nat.cast_ofNat] at factor
    push_cast
    rw [mul_div_assoc, factor, zpow_add₀ two_ne_zero]
    ring
  · simp only [scaleWord, decoded, decoded', Bool.false_eq_true, if_false]

theorem scaleWord_div (left : Denotes word x) (right : Denotes power y) (positive : 0 < y) :
    ∃ num den : Nat, 0 < den ∧ (num / den : ℚ) = x / y ∧
      scaleWord word power true = double.round num den := by
  obtain ⟨m, q, decoded, rfl⟩ := left
  obtain ⟨n, r, decoded', rfl⟩ := right
  have digits : 0 < n := by
    rcases Nat.eq_zero_or_pos n with rfl | digits
    · simp at positive
    · exact digits
  have down := (scale_pos Nat.two_pos (q - r)).2
  refine ⟨m * (scale 2 (q - r)).1, n * (scale 2 (q - r)).2, Nat.mul_pos digits down, ?_, ?_⟩
  · have factor := scale_eq Nat.two_pos (q - r)
    rw [Nat.cast_ofNat] at factor
    push_cast
    rw [mul_div_mul_comm, factor, zpow_sub₀ two_ne_zero]
    field_simp
  · simp only [scaleWord, decoded, decoded', if_true]

theorem power_lt_overflow : (10 : ℚ) ^ 308 < overflow := by
  have twice : 2 * overflow = (18014398509481983 * 2 ^ 971 : Nat) := by
    rw [overflow, Nat.cast_mul, Nat.cast_pow, Nat.cast_ofNat, Nat.cast_ofNat, ← mul_assoc]
    congr 1
    norm_num
  have whole : 2 * 10 ^ 308 < 18014398509481983 * 2 ^ 971 := by decide +kernel
  have less : ((2 * 10 ^ 308 : Nat) : ℚ) < 2 * overflow := by
    rw [twice]
    exact (Nat.cast_lt (α := ℚ)).2 whole
  rw [Nat.cast_mul, Nat.cast_pow, Nat.cast_ofNat, Nat.cast_ofNat] at less
  exact lt_of_mul_lt_mul_left less two_pos.le

/-- The word of a power of ten that one step scales by. -/
theorem denotes_power {k : Nat} (small : k ≤ 308) :
    ∃ y, Denotes (double.ofDecimal 1 k) y ∧ 1 ≤ y ∧ y ≤ 10 ^ k * (1 + 1 / 2 ^ 53) := by
  have rounded : double.ofDecimal 1 k = double.round (10 ^ k) 1 := by
    have digits : ((Nat.toDigits 10 1).length : Int) = 1 := rfl
    have factors : scale 10 k = (10 ^ k, 1) := by simp [scale]
    rw [Format.ofDecimal, digits, factors]
    dsimp only
    rw [if_neg one_ne_zero, if_neg (by omega), if_neg (by omega), Nat.one_mul]
  have inside : ((10 ^ k : Nat) / (1 : Nat) : ℚ) < overflow := by
    rw [Nat.cast_one, div_one, Nat.cast_pow, Nat.cast_ofNat]
    exact (pow_le_pow_right₀ (by norm_num) small).trans_lt power_lt_overflow
  obtain ⟨y, denotes, _, relative⟩ := denotes_round Nat.one_pos inside
  have whole : (1 : ℚ) ≤ (10 ^ k : Nat) / (1 : Nat) := by
    rw [Nat.cast_one, div_one]
    exact_mod_cast Nat.one_le_pow k 10 (by decide)
  obtain ⟨above, below⟩ := relative whole
  refine ⟨y, rounded ▸ denotes, below, ?_⟩
  simpa using above

theorem lt_overflow_of_le (small : x ≤ 2 ^ 200) : x < overflow := by
  calc x ≤ 2 ^ 200 := small
    _ ≤ 2 ^ 971 := pow_le_pow_right₀ one_le_two (by decide)
    _ = 1 * 2 ^ 971 := (one_mul _).symm
    _ < overflow := mul_lt_mul_of_pos_right (by norm_num) (by positivity)

/-- One step down by a power of ten. -/
theorem scaleWord_down {k : Nat} (denotes : Denotes word x) (small : x ≤ 2 ^ 200)
    (step : k ≤ 308) :
    scaleWord word (double.ofDecimal 1 k) true < double.infinity ∧
      ∃ x', Denotes (scaleWord word (double.ofDecimal 1 k) true) x' ∧ x' ≤ 2 * x + 1 := by
  obtain ⟨y, power, whole, _⟩ := denotes_power step
  obtain ⟨num, den, den_pos, value, scaled⟩ := scaleWord_div denotes power (by linarith)
  have smaller : (num / den : ℚ) ≤ x := value ▸ div_le_self denotes.nonneg whole
  have inside := lt_overflow_of_le (smaller.trans small)
  obtain ⟨x', denotes', near, _⟩ := denotes_round den_pos inside
  rw [scaled]
  exact ⟨round_lt_infinity den_pos inside, x', denotes', by linarith⟩

/-- Scaling down never overflows. -/
theorem scaleTen?_isSome_of_neg (negative : e < 0) (denotes : Denotes word x)
    (small : (x + 1) * 2 ^ fuel ≤ 2 ^ 200) : (scaleTen? fuel word e).isSome = true := by
  induction fuel generalizing word x e with
  | zero => rfl
  | succ fuel ih =>
      have one : (1 : ℚ) ≤ 2 ^ fuel := one_le_pow₀ one_le_two
      have natural := denotes.nonneg
      have bounded : x ≤ 2 ^ 200 := by
        rw [pow_succ] at small
        nlinarith
      rw [scaleTen?]
      split_ifs with near zero up
      · have finite := (scaleWord_down denotes bounded near).1
        simp only [negative, decide_true]
        rw [if_neg finite.ne]
        rfl
      · rfl
      · omega
      · obtain ⟨_, x', denotes', less⟩ := scaleWord_down denotes bounded (le_refl 308)
        refine ih (by omega) denotes' ?_
        rw [pow_succ] at small
        nlinarith

/-- Quotients up to that stay below infinity when they are rounded three times. -/
def largest : ℚ :=
  (2 ^ 53 - 5 / 2) * 2 ^ 971

/-- **Scaling a significand** by a power of ten has a result if the product is not too
large. -/
theorem scaleTen?_isSome {s : Nat} (word64 : s < 2 ^ 64) (step : e ≤ 308)
    (small : (s : ℚ) * 10 ^ e ≤ largest) : (scaleTen? 4 (double.ofInt s) e).isSome = true := by
  have rounded : double.ofInt s = double.round s 1 := by
    simp [Format.ofInt, Format.signed]
  have bounded : (s : ℚ) < 2 ^ 64 := by exact_mod_cast word64
  have inside : ((s : ℚ) / (1 : Nat)) < overflow := by
    rw [Nat.cast_one, div_one]
    exact lt_overflow_of_le (bounded.le.trans (by norm_num))
  obtain ⟨x, denotes, near, relative⟩ := denotes_round Nat.one_pos inside
  rw [Nat.cast_one, div_one] at near relative
  rw [rounded]
  rcases lt_or_ge e 0 with negative | positive
  · have fits : x + 1 ≤ 2 ^ 66 := by linarith
    refine scaleTen?_isSome_of_neg negative denotes ?_
    calc (x + 1) * 2 ^ 4 ≤ 2 ^ 66 * 2 ^ 4 := mul_le_mul_of_nonneg_right fits (by positivity)
      _ ≤ 2 ^ 200 := by norm_num
  · obtain ⟨k, rfl⟩ := Int.eq_ofNat_of_zero_le positive
    obtain ⟨y, power, whole, above⟩ := denotes_power (k := k) (by omega)
    obtain ⟨num, den, den_pos, value, scaled⟩ := scaleWord_mul denotes power
    -- Both factors may have been rounded up, and the bound leaves room for both.
    have product : (num / den : ℚ) < overflow := by
      have nonneg : 0 ≤ y := by linarith
      have natural : (0 : ℚ) ≤ s := by positivity
      have above' : x ≤ s * (1 + 1 / 2 ^ 53) := by
        rcases Nat.eq_zero_or_pos s with rfl | nonzero
        · rw [denotes_zero denotes]
          norm_num
        · exact (relative (by exact_mod_cast nonzero)).1
      rw [zpow_natCast] at small
      rw [value]
      calc x * y ≤ s * (1 + 1 / 2 ^ 53) * (10 ^ k * (1 + 1 / 2 ^ 53)) :=
            mul_le_mul above' above nonneg (by positivity)
        _ = s * 10 ^ k * (1 + 1 / 2 ^ 53) ^ 2 := by ring
        _ ≤ largest * (1 + 1 / 2 ^ 53) ^ 2 := mul_le_mul_of_nonneg_right small (by positivity)
        _ = (2 ^ 53 - 5 / 2) * (1 + 1 / 2 ^ 53) ^ 2 * 2 ^ 971 := mul_right_comm _ _ _
        _ < overflow := mul_lt_mul_of_pos_right (by norm_num) (by positivity)
    have finite := round_lt_infinity den_pos product
    have upward : decide ((k : Int) < 0) = false := decide_eq_false (by omega)
    rw [scaleTen?, if_pos (by omega)]
    simp only [upward, Int.natAbs_natCast]
    rw [scaled, if_neg finite.ne]
    rfl

end Scaling

end ClassMachine.Decimal
