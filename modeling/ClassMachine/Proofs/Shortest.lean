import ClassMachine.Decimal.Shortest
import ClassMachine.Proofs.Rounding

/-!
# The search for shortest decimals

The search ends on a grid fine enough that the next decimal above a value still rounds
to its word, and so it always finds a decimal (`shortest_spec`). This decimal is not
zero and at most half a unit above the value.
-/

namespace ClassMachine.Decimal

variable {i : Interval} {tie : Tie} {e : Int} {n fuel : Nat} {f : Format} {m : Nat} {q : Int}

namespace Interval

/-! ## Neighbours on a grid -/

theorem le_greatest_of_contains (den_pos : 0 < i.den)
    (inside : i.contains (scale 10 e).1 (scale 10 e).2 n = true) :
    (n : ℚ) * 10 ^ e ≤ i.greatest / i.den := by
  have down := (scale_pos (by decide : 0 < 10) e).2
  have point : n * (scale 10 e).1 * i.den ≤ i.greatest * (scale 10 e).2 := by
    unfold contains at inside
    split at inside
    · simp only [Bool.and_eq_true, decide_eq_true_eq] at inside
      exact inside.2
    · simp only [Bool.and_eq_true, decide_eq_true_eq] at inside
      exact inside.2.le
  have factor := scale_eq (by decide : 0 < 10) e
  rw [Nat.cast_ofNat] at factor
  have den_pos' : (0 : ℚ) < i.den := by exact_mod_cast den_pos
  have down' : (0 : ℚ) < (scale 10 e).2 := by exact_mod_cast down
  rw [← factor, ← mul_div_assoc, div_le_div_iff₀ down' den_pos']
  exact_mod_cast point

/-- The neighbour that is found lies in the interval. -/
theorem neighbour?_eq_some (found : i.neighbour? tie e = some n) :
    n ≠ 0 ∧ i.contains (scale 10 e).1 (scale 10 e).2 n = true := by
  unfold neighbour? at found
  dsimp only at found
  generalize i.value * (scale 10 e).2 / (i.den * (scale 10 e).1) = below at found
  cases low : i.contains (scale 10 e).1 (scale 10 e).2 below && below != 0 with
  | false =>
      cases high : i.contains (scale 10 e).1 (scale 10 e).2 (below + 1) with
      | false =>
          rw [low, high] at found
          cases found
      | true =>
          rw [low, high] at found
          cases found
          exact ⟨Nat.succ_ne_zero below, high⟩
  | true =>
      -- Where both neighbours would do, the nearer one is taken, and both are in the interval.
      obtain ⟨inside, nonzero⟩ := Bool.and_eq_true_iff.1 low
      have lower : below ≠ 0 ∧ i.contains (scale 10 e).1 (scale 10 e).2 below = true :=
        ⟨bne_iff_ne.1 nonzero, inside⟩
      cases high : i.contains (scale 10 e).1 (scale 10 e).2 (below + 1) with
      | false =>
          rw [low, high] at found
          cases found
          exact lower
      | true =>
          have upper : below + 1 ≠ 0 ∧
              i.contains (scale 10 e).1 (scale 10 e).2 (below + 1) = true :=
            ⟨Nat.succ_ne_zero below, high⟩
          rw [low, high, Bool.and_self, if_pos rfl] at found
          split at found
          · cases found
            exact lower
          · split at found
            · cases found
              exact upper
            · split at found
              · cases found
                exact upper
              · cases found
                rcases Nat.mod_two_eq_zero_or_one below with even | odd
                · rwa [even]
                · rwa [odd]

/-- There is a neighbour if one step of the grid leads from the value to nowhere above
the interval. -/
theorem neighbour?_isSome (tie : Tie) (den_pos : 0 < i.den) (least : i.least < i.value)
    (room : (i.value / i.den : ℚ) + 10 ^ e < i.greatest / i.den) :
    (i.neighbour? tie e).isSome = true := by
  obtain ⟨up, down⟩ := scale_pos (by decide : 0 < 10) e
  have step : i.value * (scale 10 e).2 + i.den * (scale 10 e).1 < i.greatest * (scale 10 e).2 := by
    have factor := scale_eq (by decide : 0 < 10) e
    have den_pos' : (0 : ℚ) < i.den := by exact_mod_cast den_pos
    have down' : (0 : ℚ) < (scale 10 e).2 := by exact_mod_cast down
    rw [Nat.cast_ofNat] at factor
    rw [← factor, div_add_div _ _ den_pos'.ne' down'.ne',
      div_lt_div_iff₀ (by positivity) den_pos'] at room
    have room' : (i.value * (scale 10 e).2 + i.den * (scale 10 e).1 : ℚ) * i.den
        < i.greatest * (scale 10 e).2 * i.den := by linarith
    exact_mod_cast lt_of_mul_lt_mul_right room' den_pos'.le
  have width : 0 < i.den * (scale 10 e).1 := Nat.mul_pos den_pos up
  -- The next multiple lies above the value, by at most one step.
  have above : i.value * (scale 10 e).2
      < (i.value * (scale 10 e).2 / (i.den * (scale 10 e).1) + 1) * (scale 10 e).1 * i.den := by
    have := Nat.lt_mul_div_succ (i.value * (scale 10 e).2) width
    rwa [Nat.mul_assoc, Nat.mul_comm (scale 10 e).1, Nat.mul_comm (_ + 1)]
  have near : (i.value * (scale 10 e).2 / (i.den * (scale 10 e).1) + 1) * (scale 10 e).1 * i.den
      ≤ i.value * (scale 10 e).2 + i.den * (scale 10 e).1 := by
    have := Nat.div_mul_le_self (i.value * (scale 10 e).2) (i.den * (scale 10 e).1)
    rw [Nat.mul_assoc, Nat.mul_comm (scale 10 e).1, Nat.add_mul, Nat.one_mul]
    omega
  have floor : i.least * (scale 10 e).2 < i.value * (scale 10 e).2 :=
    Nat.mul_lt_mul_of_pos_right least down
  unfold neighbour?
  dsimp only
  generalize i.value * (scale 10 e).2 / (i.den * (scale 10 e).1) = below at above near ⊢
  have high : i.contains (scale 10 e).1 (scale 10 e).2 (below + 1) = true := by
    unfold contains
    split
    · simp only [Bool.and_eq_true, decide_eq_true_eq]
      omega
    · simp only [Bool.and_eq_true, decide_eq_true_eq]
      omega
  rw [high]
  cases i.contains (scale 10 e).1 (scale 10 e).2 below && below != 0 with
  | false => rfl
  | true =>
      rw [Bool.and_self, if_pos rfl]
      split_ifs
      · rfl
      · rfl
      · cases tie <;> rfl

/-! ## The search -/

theorem search_spec {j : Nat} (inside : j < fuel)
    (there : (i.neighbour? tie (e - j)).isSome = true) :
    i.neighbour? tie (i.search tie fuel e).exponent = some (i.search tie fuel e).digits := by
  induction fuel generalizing e j with
  | zero => omega
  | succ fuel ih =>
      rw [search]
      cases here : i.neighbour? tie e with
      | some digits => exact here
      | none =>
          cases j with
          | zero =>
              rw [Nat.cast_zero, sub_zero, here] at there
              cases there
          | succ j =>
              have next : e - (j + 1 : Nat) = e - 1 - j := by omega
              exact ih (by omega) (next ▸ there)

/-- The grid that is found is one of those that are tried. -/
theorem le_search_exponent (i : Interval) (tie : Tie) (fuel : Nat) (e : Int) :
    e - fuel ≤ (i.search tie fuel e).exponent := by
  induction fuel generalizing e with
  | zero => exact Int.sub_le_self e (Int.natCast_nonneg 0)
  | succ fuel ih =>
      have next := ih (e - 1)
      rw [search]
      split
      · dsimp only
        omega
      · omega

/-! ## The interval of a word -/

theorem of_den_pos (f : Format) (m : Nat) (q : Int) : 0 < (of f m q).den :=
  (scale_pos Nat.two_pos (q - 2)).2

theorem of_least_lt (f : Format) (positive : 0 < m) (q : Int) :
    (of f m q).least < (of f m q).value := by
  unfold of
  dsimp only
  refine Nat.mul_lt_mul_of_pos_right ?_ (scale_pos Nat.two_pos (q - 2)).1
  split <;> omega

theorem quarter (q : Int) : (2 : ℚ) ^ (q - 2) = 2 ^ q / 4 := by
  rw [zpow_sub₀ two_ne_zero]
  norm_num

theorem of_value (f : Format) (m : Nat) (q : Int) :
    ((of f m q).value / (of f m q).den : ℚ) = m * 2 ^ q := by
  have factor := scale_eq Nat.two_pos (q - 2)
  rw [Nat.cast_ofNat, quarter] at factor
  simp only [of, Nat.cast_mul, mul_div_assoc, factor]
  push_cast
  ring

theorem of_greatest (f : Format) (m : Nat) (q : Int) :
    ((of f m q).greatest / (of f m q).den : ℚ) = (m + 1 / 2) * 2 ^ q := by
  have factor := scale_eq Nat.two_pos (q - 2)
  rw [Nat.cast_ofNat, quarter] at factor
  simp only [of, Nat.cast_mul, mul_div_assoc, factor]
  push_cast
  ring

end Interval

/-! ## Powers of ten and of two -/

/-- `10 ^ k` lies below `2 ^ j` if it does by either of two estimates, which serve for
numbers above and below one. -/
theorem ten_zpow_le {k j : Int} (large : 10 * k ≤ 3 * j) (small : 33 * k ≤ 10 * j) :
    (10 : ℚ) ^ k ≤ 2 ^ j := by
  rcases le_total 0 k with above | below
  · obtain ⟨n, rfl⟩ := Int.eq_ofNat_of_zero_le above
    have cubes : ((10 : ℚ) ^ (n : Int)) ^ 3 ≤ ((2 : ℚ) ^ j) ^ 3 :=
      calc ((10 : ℚ) ^ (n : Int)) ^ 3 = (10 ^ 3) ^ n := by
            rw [zpow_natCast, ← pow_mul, ← pow_mul, Nat.mul_comm]
        _ ≤ (2 ^ 10) ^ n := pow_le_pow_left₀ (by norm_num) (by norm_num) n
        _ = 2 ^ (10 * n : Int) := by
            rw [← pow_mul, ← zpow_natCast]
            norm_num
        _ ≤ 2 ^ (j * 3 : Int) := zpow_le_zpow_right₀ one_le_two (by omega)
        _ = (2 ^ j) ^ 3 := by rw [zpow_mul]; rfl
    exact (pow_le_pow_iff_left₀ (by positivity) (by positivity) (by decide)).1 cubes
  · obtain ⟨n, eq⟩ := Int.eq_ofNat_of_zero_le (neg_nonneg.2 below)
    obtain rfl : k = -n := by omega
    have tenths : ((10 : ℚ) ^ (-n : Int)) ^ 10 ≤ ((2 : ℚ) ^ j) ^ 10 :=
      calc ((10 : ℚ) ^ (-n : Int)) ^ 10 = ((10 ^ 10) ^ n)⁻¹ := by
            rw [zpow_neg, zpow_natCast, inv_pow, ← pow_mul, ← pow_mul, Nat.mul_comm]
        _ ≤ ((2 ^ 33) ^ n)⁻¹ :=
            inv_anti₀ (by positivity) (pow_le_pow_left₀ (by norm_num) (by norm_num) n)
        _ = 2 ^ (-(33 * n) : Int) := by
            rw [← pow_mul, zpow_neg, ← zpow_natCast]
            norm_num
        _ ≤ 2 ^ (j * 10 : Int) := zpow_le_zpow_right₀ one_le_two (by omega)
        _ = (2 ^ j) ^ 10 := by rw [zpow_mul]; rfl
    exact (pow_le_pow_iff_left₀ (by positivity) (by positivity) (by decide)).1 tenths

/-- **Shortest decimals** are found for all words of at most 53 bits, on grids that are
not finer than needed, and are at most half a unit above them. -/
theorem shortest_spec (f : Format) (tie : Tie) (positive : 0 < m) (bits : m < 2 ^ 53)
    (least : -1074 ≤ q) (greatest : q ≤ 971) :
    (shortest f tie m q).digits ≠ 0 ∧ -346 ≤ (shortest f tie m q).exponent ∧
      ((shortest f tie m q).digits : ℚ) * 10 ^ (shortest f tie m q).exponent
        ≤ (m + 1 / 2) * 2 ^ q := by
  have leading : m.log2 < 53 := (Nat.log2_lt positive.ne').2 bits
  -- The search goes from the estimate of the exponent to finer grids, 24 of them.
  obtain ⟨start, place⟩ : ∃ start, ((Nat.log2 m + q) * 30103) / 100000 + 2 = start := ⟨_, rfl⟩
  have fine : (10 : ℚ) ^ (start - 23) ≤ 2 ^ (q - 2) := ten_zpow_le (by omega) (by omega)
  have unit : (0 : ℚ) < 2 ^ q := by positivity
  have room : ((Interval.of f m q).value / (Interval.of f m q).den : ℚ) + 10 ^ (start - 23)
      < (Interval.of f m q).greatest / (Interval.of f m q).den := by
    rw [Interval.quarter] at fine
    rw [Interval.of_value, Interval.of_greatest]
    linarith
  have there := Interval.neighbour?_isSome tie (Interval.of_den_pos f m q)
    (Interval.of_least_lt f positive q) room
  have found : (Interval.of f m q).neighbour? tie ((Interval.of f m q).search tie 24 start).exponent
      = some _ := Interval.search_spec (j := 23) (by decide) there
  obtain ⟨nonzero, inside⟩ := Interval.neighbour?_eq_some found
  have below := Interval.le_greatest_of_contains (Interval.of_den_pos f m q) inside
  have grid := Interval.le_search_exponent (Interval.of f m q) tie 24 start
  rw [Interval.of_greatest] at below
  rw [shortest, place]
  exact ⟨nonzero, by omega, below⟩

end ClassMachine.Decimal
