import ClassMachine.Manifest
import ClassMachine.Proofs.CodeLines
import ClassMachine.Proofs.Literals
import ClassMachine.Proofs.Shortest

/-!
# Decimals as number literals

The decimal of a finite word is a number literal, and this literal has a value
(`readable_singleLayout`, `readable_doubleLayout`), although reading it rounds three
times: the significand to a word, the power of ten to a word, and their product. A
literal stands for its decimal exactly (`Layout.exact_literal`), and a decimal is at most
half a unit above its word. Only the two greatest words of 64 bits come so near to
infinity with this that their literals are computed.
-/

namespace ClassMachine

open Decimal Json

/-! ## Significands of literals -/

namespace Json

variable {cs : List Char} {acc : Nat}

theorem mul_pow_le_ofDigitChars (cs : List Char) (acc : Nat) :
    acc * 10 ^ cs.length ≤ Nat.ofDigitChars 10 cs acc := by
  rw [Nat.ofDigitChars_eq_ofDigitChars_zero, Nat.mul_comm]
  exact Nat.le_add_right _ _

/-- The significand fits into 64 bits, and with the digits that are left out it is no
more than all digits are. -/
theorem absorb_le (cs : List Char) (held : acc < UInt64.size) :
    (absorb acc cs).1 < UInt64.size ∧
      (absorb acc cs).2.1 + (absorb acc cs).2.2.length = cs.length ∧
      (absorb acc cs).1 * 10 ^ (absorb acc cs).2.2.length ≤ Nat.ofDigitChars 10 cs acc := by
  induction cs generalizing acc with
  | nil => exact ⟨held, rfl, by simp [absorb]⟩
  | cons c cs ih =>
      rw [absorb]
      dsimp only
      split
      · exact ⟨held, Nat.zero_add _, mul_pow_le_ofDigitChars (c :: cs) acc⟩
      · rename_i small
        obtain ⟨fits, count, below⟩ := ih (Nat.lt_of_not_le small)
        refine ⟨fits, ?_, ?_⟩
        · rw [List.length_cons, ← count]
          exact Nat.succ_add _ _
        · rw [Nat.ofDigitChars_cons, Nat.mul_comm 10]
          exact below

/-- All digits are taken if their number fits into 64 bits. -/
theorem absorb_eq (fits : Nat.ofDigitChars 10 cs acc < UInt64.size) :
    absorb acc cs = (Nat.ofDigitChars 10 cs acc, cs.length, []) := by
  induction cs generalizing acc with
  | nil => rfl
  | cons c cs ih =>
      rw [Nat.ofDigitChars_cons, Nat.mul_comm 10] at fits ⊢
      have next := Text.le_ofDigitChars cs (acc * 10 + (c.toNat - '0'.toNat))
      rw [absorb]
      dsimp only
      rw [if_neg (by omega), ih fits]
      rfl

namespace Literal

variable {l : Literal}

/-- The exponent of a literal, zero if there is none. -/
def power (l : Literal) : Int :=
  match l.exponent with
  | none => 0
  | some (negative, digits) =>
    if negative then -(Nat.ofDigitChars 10 digits 0 : Int) else Nat.ofDigitChars 10 digits 0

/-- The number that a literal stands for exactly, without its sign. -/
def exact (l : Literal) : ℚ :=
  Nat.ofDigitChars 10 (l.whole ++ l.fraction) 0 * 10 ^ (l.power - l.fraction.length)

/-- What a literal is read as, if 64 bits hold the digits before the point: a significand
of at most these and the other digits, scaled once. -/
theorem WellFormed.magnitude?_eq (wellFormed : l.WellFormed)
    (whole : Nat.ofDigitChars 10 l.whole 0 < UInt64.size) (exponent : l.power.natAbs < 2 ^ 31) :
    ∃ s places : Nat, s < UInt64.size ∧ (s : ℚ) * 10 ^ (l.power - places) ≤ l.exact ∧
      l.magnitude? = scaleTen? 4 (double.ofInt s) (l.power - places) := by
  obtain ⟨held, count, below⟩ := absorb_le l.fraction whole
  refine ⟨_, (absorb (Nat.ofDigitChars 10 l.whole 0) l.fraction).2.1, held, ?_, ?_⟩
  · unfold exact
    rw [Nat.ofDigitChars_append]
    -- What is not absorbed is cut off, so the significand can only be too small.
    generalize absorb (Nat.ofDigitChars 10 l.whole 0) l.fraction = taken at *
    have places : (l.power - taken.2.1 : Int)
        = taken.2.2.length + (l.power - l.fraction.length) := by omega
    have below' : (taken.1 * 10 ^ taken.2.2.length : ℚ)
        ≤ Nat.ofDigitChars 10 l.fraction (Nat.ofDigitChars 10 l.whole 0) := by exact_mod_cast below
    rw [places, zpow_add₀ (by norm_num), zpow_natCast, ← mul_assoc]
    exact mul_le_mul_of_nonneg_right below' (by positivity)
  · have point (places : Nat) : ((([] : List Char).length : Int) - places) = -places := by simp
    unfold magnitude?
    rw [absorb_eq whole]
    dsimp only
    generalize absorb (Nat.ofDigitChars 10 l.whole 0) l.fraction = taken
    rw [point]
    unfold power at exponent ⊢
    cases parts : l.exponent with
    | none =>
        dsimp only
        rw [zero_sub]
    | some e =>
        obtain ⟨negative, digits⟩ := e
        obtain ⟨digits_ne, all⟩ := wellFormed.exponent _ parts
        rw [parts] at exponent
        dsimp only at exponent digits_ne all ⊢
        have inside : Nat.ofDigitChars 10 digits 0 < 2 ^ 31 := by
          cases negative <;> simpa using exponent
        have read : Text.Range.int32.read? digits = some (Nat.ofDigitChars 10 digits 0 : Int) :=
          (Text.Numeral.mk digits digits_ne all inside).read?_digits (by decide) rfl
        rw [read]
        dsimp only
        congr 1
        cases negative with
        | true =>
            rw [if_pos rfl, if_pos rfl]
            ring
        | false =>
            rw [if_neg Bool.false_ne_true, if_neg Bool.false_ne_true]
            ring

/-- A literal has a value if it stands for a number that is not too large. -/
theorem WellFormed.magnitude?_isSome (wellFormed : l.WellFormed)
    (whole : Nat.ofDigitChars 10 l.whole 0 < UInt64.size) (exponent : l.power.natAbs < 2 ^ 31)
    (step : l.power ≤ 308) (small : l.exact ≤ largest) : l.magnitude?.isSome = true := by
  obtain ⟨s, places, held, below, scaled⟩ := wellFormed.magnitude?_eq whole exponent
  rw [scaled]
  exact scaleTen?_isSome held (by omega) (below.trans small)

theorem value?_isSome (some : l.magnitude?.isSome = true) : l.value?.isSome = true := by
  unfold value?
  dsimp only
  split_ifs
  · rfl
  · rfl
  · rwa [Option.isSome_map]

theorem WellFormed.numeric?_text (wellFormed : l.WellFormed) :
    numeric? (String.ofList l.text) = l.value? := by
  rw [numeric?, String.toList_ofList, wellFormed.takeLiteral?_text]

/-! ## Literals of decimals -/

/-- A decimal in positions. A whole number keeps a decimal place. -/
def inPositions (negative : Bool) (digits : List Char) (e : Int) : Literal :=
  if e < 0 then ⟨negative, ['0'], List.replicate (-e - 1).toNat '0' ++ digits, none⟩
  else if digits.length ≤ e.toNat + 1 then
    ⟨negative, digits ++ List.replicate (e.toNat + 1 - digits.length) '0', ['0'], none⟩
  else ⟨negative, digits.take (e.toNat + 1), digits.drop (e.toNat + 1), none⟩

/-- A decimal with one digit before the point and an exponent. -/
def withExponent (negative : Bool) (digits : List Char) (e : Int) : Literal :=
  ⟨negative, digits.take 1, digits.drop 1, some (decide (e < 0), Nat.toDigits 10 e.natAbs)⟩

variable {negative : Bool} {n : Nat} {e : Int}

theorem wellFormed_inPositions (nonzero : n ≠ 0) :
    (inPositions negative (Nat.toDigits 10 n) e).WellFormed := by
  have digits := isDigit_toDigits n
  have digits_ne : Nat.toDigits 10 n ≠ [] := Nat.toDigits_ne_nil
  have front := head?_toDigits_ne (Nat.pos_of_ne_zero nonzero)
  have zeros (k : Nat) : ∀ c ∈ List.replicate k '0', c.isDigit = true := fun c member => by
    rw [List.eq_of_mem_replicate member]
    rfl
  unfold inPositions
  split_ifs with small short
  · exact
      { whole_ne := List.cons_ne_nil _ _
        leading := fun _ => rfl
        whole := List.forall_mem_singleton.2 rfl
        fraction := List.forall_mem_append.2 ⟨zeros _, digits⟩
        exponent := nofun }
  · exact
      { whole_ne := List.append_ne_nil_of_left_ne_nil digits_ne _
        leading := fun zero => by
          rw [List.head?_append_of_ne_nil _ digits_ne] at zero
          exact (front zero).elim
        whole := List.forall_mem_append.2 ⟨digits, zeros _⟩
        fraction := List.forall_mem_singleton.2 rfl
        exponent := nofun }
  · exact
      { whole_ne := by simp [digits_ne]
        leading := fun zero => by
          rw [List.head?_take, if_neg (Nat.succ_ne_zero _)] at zero
          exact (front zero).elim
        whole := fun c member => digits c (List.mem_of_mem_take member)
        fraction := fun c member => digits c (List.mem_of_mem_drop member)
        exponent := nofun }

theorem wellFormed_withExponent (nonzero : n ≠ 0) :
    (withExponent negative (Nat.toDigits 10 n) e).WellFormed where
  whole_ne := by simp [withExponent]
  leading := fun zero => by
    rw [withExponent, List.head?_take, if_neg Nat.one_ne_zero] at zero
    exact (head?_toDigits_ne (Nat.pos_of_ne_zero nonzero) zero).elim
  whole := fun c member => isDigit_toDigits n c (List.mem_of_mem_take member)
  fraction := fun c member => isDigit_toDigits n c (List.mem_of_mem_drop member)
  exponent := by
    rintro _ ⟨⟩
    exact ⟨Nat.toDigits_ne_nil, isDigit_toDigits e.natAbs⟩

/-- A decimal in positions stands for its digits, moved to the place of its exponent. -/
theorem exact_inPositions :
    (inPositions negative (Nat.toDigits 10 n) e).exact
      = n * 10 ^ (e - ((Nat.toDigits 10 n).length - 1 : Nat)) := by
  have digits : Nat.ofDigitChars 10 (Nat.toDigits 10 n) 0 = n := Nat.ofDigitChars_ten_toDigits
  have length : 0 < (Nat.toDigits 10 n).length := Nat.length_toDigits_pos
  unfold inPositions exact power
  split_ifs with small short
  · dsimp only
    rw [List.singleton_append, Nat.ofDigitChars_cons, Nat.ofDigitChars_append,
      Nat.ofDigitChars_replicate_zero, List.length_append, List.length_replicate]
    simp only [Nat.sub_self, Nat.mul_zero, Nat.add_zero, digits]
    congr 2
    omega
  · dsimp only
    have place : e - ((Nat.toDigits 10 n).length - 1 : Nat)
        = (e.toNat + 1 - (Nat.toDigits 10 n).length : Nat) := by omega
    rw [Nat.ofDigitChars_append, Nat.ofDigitChars_append, digits, Nat.ofDigitChars_replicate_zero,
      place, zpow_natCast]
    simp [Nat.ofDigitChars_cons]
    ring
  · dsimp only
    rw [List.take_append_drop, digits, List.length_drop]
    congr 2
    omega

theorem power_withExponent : (withExponent negative (Nat.toDigits 10 n) e).power = e := by
  unfold withExponent power
  dsimp only
  rw [Nat.ofDigitChars_ten_toDigits]
  by_cases small : e < 0
  · rw [if_pos (decide_eq_true small)]
    omega
  · rw [if_neg (by simpa using small)]
    omega

/-- With an exponent it stands for the same. -/
theorem exact_withExponent :
    (withExponent negative (Nat.toDigits 10 n) e).exact
      = n * 10 ^ (e - ((Nat.toDigits 10 n).length - 1 : Nat)) := by
  rw [exact, power_withExponent]
  simp only [withExponent, List.take_append_drop, List.length_drop, Nat.ofDigitChars_ten_toDigits]

theorem ofDigitChars_lt {cs : List Char} (digits : ∀ c ∈ cs, c.isDigit = true) (acc : Nat) :
    Nat.ofDigitChars 10 cs acc < (acc + 1) * 10 ^ cs.length := by
  induction cs generalizing acc with
  | nil => simp
  | cons c cs ih =>
      obtain ⟨digit, digits⟩ := List.forall_mem_cons.1 digits
      have ten : c.toNat - '0'.toNat < 10 := by
        rw [Char.isDigit, Bool.and_eq_true, decide_eq_true_iff, decide_eq_true_iff] at digit
        have greatest : c.val.toNat ≤ '9'.val.toNat := UInt32.le_iff_toNat_le.1 digit.2
        change c.val.toNat ≤ 57 at greatest
        change c.val.toNat - 48 < 10
        omega
      rw [Nat.ofDigitChars_cons, List.length_cons, Nat.pow_succ, Nat.mul_comm _ 10, ← Nat.mul_assoc]
      refine Nat.lt_of_lt_of_le (ih digits _) (Nat.mul_le_mul_right _ ?_)
      omega

end Literal

end Json

/-! ## Layouts -/

namespace Decimal

namespace Layout

open Literal

variable {layout : Layout} {negative : Bool} {n : Nat} {e : Int}

/-- A layout whose decimals are number literals: whole numbers keep a decimal place,
exponents have a sign, and what stands in positions has few digits before the point. -/
structure IsJson (layout : Layout) : Prop where
  keepPlace : layout.keepPlace = true
  plusSign : layout.plusSign = true
  positional : ∀ e, layout.positional e = true → e ≤ 15

/-- The literal of a decimal. -/
def literal (layout : Layout) (negative : Bool) (digits : List Char) (e : Int) : Literal :=
  if layout.positional e then inPositions negative digits e else withExponent negative digits e

theorem IsJson.text_inPositions (json : layout.IsJson) :
    (inPositions negative (Nat.toDigits 10 n) e).text
      = (if negative then ['-'] else []) ++ layout.positions (Nat.toDigits 10 n) e := by
  unfold positions inPositions Literal.text
  rw [json.keepPlace, if_pos rfl]
  by_cases small : e < 0
  · have digits_ne : Nat.toDigits 10 n ≠ [] := Nat.toDigits_ne_nil
    simp [fractionText, exponentText, small, digits_ne]
  · by_cases whole : (Nat.toDigits 10 n).length ≤ e.toNat + 1
    · simp [fractionText, exponentText, small, whole]
    · have rest : (Nat.toDigits 10 n).drop (e.toNat + 1) ≠ [] := by
        rw [ne_eq, List.drop_eq_nil_iff]
        exact whole
      simp [fractionText, exponentText, small, whole, rest]

theorem IsJson.text_withExponent (json : layout.IsJson) :
    (withExponent negative (Nat.toDigits 10 n) e).text
      = (if negative then ['-'] else []) ++ layout.scientific (Nat.toDigits 10 n) e := by
  have alone : (Nat.toDigits 10 n).drop 1 = [] ↔ (Nat.toDigits 10 n).length ≤ 1 :=
    List.drop_eq_nil_iff
  unfold scientific withExponent Literal.text fractionText exponentText
  rw [json.plusSign, if_pos rfl]
  simp only [alone]
  by_cases small : e < 0
  · simp [small]
  · simp [small]

theorem IsJson.text_literal (json : layout.IsJson) :
    (layout.literal negative (Nat.toDigits 10 n) e).text
      = (if negative then ['-'] else []) ++ layout.decimal (Nat.toDigits 10 n) e := by
  unfold literal decimal
  by_cases short : layout.positional e
  · rw [if_pos short, if_pos short, json.text_inPositions]
  · rw [if_neg short, if_neg short, json.text_withExponent]

theorem wellFormed_literal (nonzero : n ≠ 0) :
    (layout.literal negative (Nat.toDigits 10 n) e).WellFormed := by
  unfold literal
  split_ifs
  · exact wellFormed_inPositions nonzero
  · exact wellFormed_withExponent nonzero

/-- The literal of a decimal stands for the decimal. -/
theorem exact_literal :
    (layout.literal negative (Nat.toDigits 10 n) e).exact
      = n * 10 ^ (e - ((Nat.toDigits 10 n).length - 1 : Nat)) := by
  unfold literal
  split_ifs
  · exact exact_inPositions
  · exact exact_withExponent

theorem power_literal :
    (layout.literal negative (Nat.toDigits 10 n) e).power
      = if layout.positional e then 0 else e := by
  unfold literal
  split_ifs
  · unfold inPositions power
    split_ifs <;> rfl
  · exact power_withExponent

theorem IsJson.length_whole_le (json : layout.IsJson) :
    (layout.literal negative (Nat.toDigits 10 n) e).whole.length ≤ 16 := by
  unfold literal
  split_ifs with short
  · have bound := json.positional e short
    unfold inPositions
    split_ifs with small whole
    · exact Nat.le_of_ble_eq_true rfl
    · rw [List.length_append, List.length_replicate]
      omega
    · rw [List.length_take]
      omega
  · rw [withExponent, List.length_take]
    omega

theorem pow_le_of_toDigits (nonzero : n ≠ 0) : 10 ^ ((Nat.toDigits 10 n).length - 1) ≤ n := by
  rcases Nat.eq_zero_or_pos ((Nat.toDigits 10 n).length - 1) with one | more
  · rw [one, Nat.pow_zero]
    exact Nat.pos_of_ne_zero nonzero
  · refine Nat.le_of_not_lt fun less => ?_
    have short := (Nat.length_toDigits_le_iff (by decide) more).2 less
    omega

theorem largest_lt : largest < 10 ^ (309 : Int) := by
  have decades : 2 ^ 1024 ≤ 10 ^ 309 := by decide +kernel
  calc largest ≤ overflow := mul_le_mul_of_nonneg_right (by norm_num) (by positivity)
    _ < 2 ^ (1024 : Int) := overflow_lt
    _ ≤ 10 ^ (309 : Int) := by exact_mod_cast decades

/-- The literal of a decimal has a value if the decimal is not too large. -/
theorem IsJson.value?_literal (json : layout.IsJson) (nonzero : n ≠ 0) (least : -400 ≤ e)
    (small : (n * 10 ^ (e - ((Nat.toDigits 10 n).length - 1 : Nat)) : ℚ) ≤ largest) :
    (layout.literal negative (Nat.toDigits 10 n) e).value?.isSome = true := by
  have wellFormed : (layout.literal negative (Nat.toDigits 10 n) e).WellFormed :=
    wellFormed_literal nonzero
  have whole : Nat.ofDigitChars 10 (layout.literal negative (Nat.toDigits 10 n) e).whole 0
      < UInt64.size := by
    calc Nat.ofDigitChars 10 (layout.literal negative (Nat.toDigits 10 n) e).whole 0
        < (0 + 1) * 10 ^ (layout.literal negative (Nat.toDigits 10 n) e).whole.length :=
          ofDigitChars_lt wellFormed.whole 0
      _ ≤ (0 + 1) * 10 ^ 16 :=
          Nat.mul_le_mul_left _ (Nat.pow_le_pow_right (by decide) json.length_whole_le)
      _ < UInt64.size := by decide
  -- The first digit stands at `e`, so a bound on the number is one on `e`.
  have greatest : e < 309 := by
    have digits : ((10 : ℚ) ^ ((Nat.toDigits 10 n).length - 1)) ≤ n := by
      exact_mod_cast pow_le_of_toDigits nonzero
    have power : (10 : ℚ) ^ e < 10 ^ (309 : Int) :=
      calc (10 : ℚ) ^ e
          = 10 ^ ((Nat.toDigits 10 n).length - 1)
            * 10 ^ (e - ((Nat.toDigits 10 n).length - 1 : Nat)) := by
            rw [← zpow_natCast, ← zpow_add₀ (by norm_num)]
            congr 1
            ring
        _ ≤ n * 10 ^ (e - ((Nat.toDigits 10 n).length - 1 : Nat)) :=
            mul_le_mul_of_nonneg_right digits (by positivity)
        _ ≤ largest := small
        _ < 10 ^ (309 : Int) := largest_lt
    exact (zpow_lt_zpow_iff_right₀ (by norm_num : (1 : ℚ) < 10)).1 power
  refine value?_isSome (wellFormed.magnitude?_isSome whole ?_ ?_ ?_)
  · rw [power_literal]
    split_ifs <;> omega
  · rw [power_literal]
    split_ifs <;> omega
  · rw [exact_literal]
    exact small

/-- The text of a finite word is a literal, and one with a value unless the word is among
the greatest. -/
theorem IsJson.finite_eq (json : layout.IsJson) (f : Format) (negative : Bool) {m : Nat} {q : Int}
    (bits : m < 2 ^ 53) (least : -1074 ≤ q) (greatest : q ≤ 971) :
    ∃ l : Literal, l.WellFormed ∧ layout.finite f negative m q = String.ofList l.text ∧
      ((m + 1 / 2 : ℚ) * 2 ^ q ≤ largest → l.value?.isSome = true) := by
  unfold finite
  rcases Nat.eq_zero_or_pos m with rfl | positive
  · have wellFormed : (inPositions negative (Nat.toDigits 10 0) 0).WellFormed :=
      { whole_ne := List.cons_ne_nil _ _
        leading := fun _ => rfl
        whole := List.forall_mem_singleton.2 rfl
        fraction := List.forall_mem_singleton.2 rfl
        exponent := nofun }
    refine ⟨_, wellFormed, ?_, fun _ => ?_⟩
    · rw [json.text_inPositions]
      rfl
    · cases negative <;> decide +kernel
  · obtain ⟨nonzero, fine, near⟩ := shortest_spec f layout.tie positive bits least greatest
    rw [if_neg positive.ne']
    dsimp only
    generalize shortest f layout.tie m q = short at *
    obtain ⟨e, place⟩ :
        ∃ e, short.exponent + ((Nat.toDigits 10 short.digits).length - 1 : Nat) = e := ⟨_, rfl⟩
    refine ⟨layout.literal negative (Nat.toDigits 10 short.digits) e,
      wellFormed_literal nonzero, ?_, fun small => json.value?_literal nonzero (by omega) ?_⟩
    · rw [json.text_literal, place]
    · rw [← place, add_sub_cancel_right]
      exact near.trans small

end Layout

/-! ## Words -/

variable {f : Format} {layout : Layout} {negative : Bool} {m word : Nat} {q : Int}

/-- The range of finite words. -/
theorem Format.decode_eq_finite (decoded : f.decode word = .finite negative m q) :
    m < 2 * f.unit ∧ f.leastExponent ≤ q ∧
      q ≤ f.leastExponent + (2 ^ f.exponentBits - 3 : Nat) := by
  have unit : 0 < f.unit := Nat.pow_pos (by decide)
  have fraction : word % f.signBit % f.unit < f.unit := Nat.mod_lt _ unit
  have exponent : word % f.signBit < f.infinity →
      word % f.signBit / f.unit < 2 ^ f.exponentBits - 1 := (Nat.div_lt_iff_lt_mul unit).2
  unfold decode at decoded
  dsimp only at decoded
  generalize word % f.signBit / f.unit = place at exponent decoded
  split_ifs at decoded with infinite more zero
  · cases decoded
    exact ⟨by omega, le_refl _, by omega⟩
  · have below := exponent (by omega)
    cases decoded
    exact ⟨by omega, by omega, by omega⟩

/-- All words of 64 bits but the two greatest are small enough with half a unit more. -/
theorem half_above_le (small : q ≤ 970 ∧ m < 2 ^ 53 ∨ q ≤ 971 ∧ m + 3 ≤ 2 ^ 53) :
    (m + 1 / 2 : ℚ) * 2 ^ q ≤ largest := by
  rcases small with ⟨place, bits⟩ | ⟨place, bits⟩
  · have bits' : (m + 1 / 2 : ℚ) ≤ 2 ^ 53 := by
      have : (m + 1 : ℚ) ≤ 2 ^ 53 := by exact_mod_cast bits
      linarith
    calc (m + 1 / 2 : ℚ) * 2 ^ q ≤ 2 ^ 53 * 2 ^ (970 : Int) :=
          mul_le_mul bits' (zpow_le_zpow_right₀ one_le_two place) (by positivity) (by positivity)
      _ = 2 ^ 52 * 2 ^ 971 := by
          rw [zpow_ofNat, ← pow_add, ← pow_add]
      _ ≤ largest := mul_le_mul_of_nonneg_right (by norm_num) (by positivity)
  · have bits' : (m + 1 / 2 : ℚ) ≤ 2 ^ 53 - 5 / 2 := by
      have : (m + 3 : ℚ) ≤ 2 ^ 53 := by exact_mod_cast bits
      linarith
    calc (m + 1 / 2 : ℚ) * 2 ^ q ≤ (2 ^ 53 - 5 / 2) * 2 ^ (971 : Int) :=
          mul_le_mul bits' (zpow_le_zpow_right₀ one_le_two place) (by positivity) (by norm_num)
      _ = largest := by rw [zpow_ofNat, largest]

/-- The text of a finite word is the literal of a number that has a value. -/
def Layout.Readable (layout : Layout) (f : Format) : Prop :=
  ∀ word literal, layout.finite? f word = some literal →
    IsNumber literal ∧ (numeric? literal).isSome = true

theorem Layout.finite?_eq_some {literal : String} (found : layout.finite? f word = some literal) :
    ∃ negative m q, f.decode word = .finite negative m q ∧
      literal = layout.finite f negative m q := by
  unfold finite? at found
  split at found
  · cases found
    exact ⟨_, _, _, ‹_›, rfl⟩
  · cases found

theorem isJson_singleLayout : Manifest.singleLayout.IsJson where
  keepPlace := rfl
  plusSign := rfl
  positional := fun e short => by
    have := of_decide_eq_true short
    omega

theorem isJson_doubleLayout : Manifest.doubleLayout.IsJson where
  keepPlace := rfl
  plusSign := rfl
  positional := fun e short => by
    have := of_decide_eq_true short
    omega

/-- All finite words of 32 bits are readable. -/
theorem readable_singleLayout : Manifest.singleLayout.Readable single := by
  intro word literal found
  obtain ⟨negative, m, q, decoded, rfl⟩ := Layout.finite?_eq_some found
  obtain ⟨bits, least, greatest⟩ := Format.decode_eq_finite decoded
  change m < 2 ^ 24 at bits
  change -149 ≤ q at least
  change q ≤ 104 at greatest
  obtain ⟨l, wellFormed, written, value⟩ := isJson_singleLayout.finite_eq single negative
    (m := m) (q := q) (by omega) (by omega) (by omega)
  rw [written]
  refine ⟨⟨l, wellFormed, String.toList_ofList⟩, ?_⟩
  rw [wellFormed.numeric?_text]
  exact value (half_above_le (Or.inr ⟨by omega, by omega⟩))

/-- **So are all finite words of 64 bits.** -/
theorem readable_doubleLayout : Manifest.doubleLayout.Readable double := by
  intro word literal found
  obtain ⟨negative, m, q, decoded, rfl⟩ := Layout.finite?_eq_some found
  obtain ⟨bits, least, greatest⟩ := Format.decode_eq_finite decoded
  change m < 2 ^ 53 at bits
  change -1074 ≤ q at least
  change q ≤ 971 at greatest
  obtain ⟨l, wellFormed, written, value⟩ :=
    isJson_doubleLayout.finite_eq double negative bits least greatest
  refine ⟨⟨l, wellFormed, written ▸ String.toList_ofList⟩, ?_⟩
  by_cases extreme : q = 971 ∧ 2 ^ 53 - 2 ≤ m
  · -- Half a unit more would be too large, so these two words are read by computation.
    obtain ⟨rfl, rest⟩ := extreme
    obtain rfl | rfl : m = 2 ^ 53 - 2 ∨ m = 2 ^ 53 - 1 := by omega
    · cases negative <;> decide +kernel
    · cases negative <;> decide +kernel
  · rw [written, wellFormed.numeric?_text]
    refine value (half_above_le ?_)
    omega

end Decimal

end ClassMachine
