import CrossBook.Proofs.Tick

/-!
# Every tick in range has its exact price

Between two powers of ten the grid is even, so the price of a tick is a multiple of a step. The
powers, the count and their product are all decimals as far as the range goes, and the sum is the
seven digits of the tick.

## Main results

* `Tick.exactPrice_above`, `Tick.exactPrice_below` — the even steps of a decade
* `Tick.exists_price` — no computation of a price fails
* `Tick.price_spacing` — prices in full: exact, positive and growing
-/

namespace CrossBook.Tick

open Decimal

variable {t : Int}

/-! ### The steps of a decade -/

theorem zpow_add_steps (k : ℤ) : (10 : ℚ) ^ k + 9000000 * 10 ^ (k - 6) = 10 ^ (k + 1) := by
  rw [zpow_sub₀ (by norm_num), zpow_add_one₀ (by norm_num)]
  norm_num
  ring

theorem zpow_sub_steps (k : ℤ) : (10 : ℚ) ^ k - 9000000 * 10 ^ (k - 7) = 10 ^ (k - 1) := by
  rw [zpow_sub₀ (by norm_num), zpow_sub_one₀ (by norm_num)]
  norm_num
  ring

/-- From a power of ten that is one or more, nine million even steps lead up to the next. -/
theorem exactPrice_above {k n : ℤ} (above : 0 ≤ k) (started : 0 ≤ n) (within : n ≤ 9000000) :
    exactPrice (9000000 * k + n) = 10 ^ k + n * 10 ^ (k - 6) := by
  have nonneg : ¬ 9000000 * k + n < 0 := by omega
  unfold exactPrice stepExponent steps perDecade unitExponent
  rw [decade_of_nonneg (by omega), if_neg nonneg]
  rcases within.lt_or_eq with inside | rfl
  · have : (9000000 * k + n) / 9000000 = k := by omega
    rw [this, show -6 + k - 0 = k - 6 by ring]
    push_cast
    ring
  · -- the last step ends on the power of ten above
    have : (9000000 * k + 9000000) / 9000000 = k + 1 := by omega
    rw [this]
    push_cast
    rw [zpow_add_steps]
    ring

/-- From a power of ten that is one or less, nine million even steps lead down to the next. -/
theorem exactPrice_below {k n : ℤ} (below : k ≤ 0) (started : n ≤ 0) (within : -9000000 ≤ n) :
    exactPrice (9000000 * k + n) = 10 ^ k + n * 10 ^ (k - 7) := by
  rcases eq_or_lt_of_le (show 9000000 * k + n ≤ 0 by omega) with zero | negative
  · obtain ⟨rfl, rfl⟩ : k = 0 ∧ n = 0 := by omega
    rw [exactPrice_eq, show significand (9000000 * 0 + 0) = 1000000 by decide,
      show stepExponent (9000000 * 0 + 0) = -6 by decide]
    norm_num
  · unfold exactPrice stepExponent steps perDecade unitExponent
    rw [decade_of_neg negative, if_pos negative]
    rcases within.lt_or_eq with inside | rfl
    · have : -(-(9000000 * k + n) / 9000000) = k := by omega
      rw [this, show -6 + k - 1 = k - 7 by ring]
      push_cast
      ring
    · have : -(-(9000000 * k + -9000000) / 9000000) = k - 1 := by omega
      rw [this]
      push_cast
      rw [← zpow_sub_steps]
      ring

theorem exactPrice_lowest : exactPrice lowest = 10 ^ (-12 : ℤ) := by
  have := exactPrice_below (k := -12) (n := 0) (by norm_num) (by norm_num) (by norm_num)
  rw [lowest]
  norm_num at this ⊢
  exact this

theorem exactPrice_highest : exactPrice highest = 10 ^ 27 := by
  have := exactPrice_above (k := 27) (n := 0) (by norm_num) (by norm_num) (by norm_num)
  rw [highest]
  norm_num at this ⊢
  exact this

/-! ### Computed prices -/

theorem decade_mem (h : InRange t) : -12 ≤ decade t ∧ decade t ≤ 27 := by
  obtain ⟨low, high⟩ := h
  unfold lowest at low
  unfold highest at high
  rcases lt_or_ge t 0 with negative | nonneg
  · rw [decade_of_neg negative]
    omega
  · rw [decade_of_nonneg nonneg]
    omega

theorem natAbs_steps_le (t : Int) : (steps t).natAbs ≤ 9000000 := by
  unfold steps perDecade
  rcases lt_or_ge t 0 with negative | nonneg
  · rw [decade_of_neg negative]
    omega
  · rw [decade_of_nonneg nonneg]
    omega

theorem steps_fit (t : Int) : (steps t).natAbs ≤ maxCoefficient := by
  have large : 9000000 ≤ maxCoefficient := by decide
  exact (natAbs_steps_le t).trans large

theorem stepExponent_le (h : InRange t) : stepExponent t ≤ 21 := by
  have := decade_mem h
  unfold stepExponent unitExponent
  split_ifs <;> omega

theorem abs_offset_le (h : InRange t) :
    |(steps t : ℚ) * 10 ^ stepExponent t| ≤ maxCoefficient := by
  have count : |(steps t : ℚ)| ≤ 9000000 := by
    rw [← Int.cast_abs, Int.abs_eq_natAbs]
    exact_mod_cast natAbs_steps_le t
  have power : (10 : ℚ) ^ stepExponent t ≤ 10 ^ (21 : ℤ) :=
    zpow_le_zpow_right₀ (by norm_num) (stepExponent_le h)
  calc |(steps t : ℚ) * 10 ^ stepExponent t| = |(steps t : ℚ)| * 10 ^ stepExponent t := by
        rw [abs_mul, abs_of_pos (a := (10 : ℚ) ^ stepExponent t) (by positivity)]
    _ ≤ 9000000 * 10 ^ (21 : ℤ) := mul_le_mul count power (by positivity) (by norm_num)
    _ ≤ maxCoefficient := by norm_num [maxCoefficient]

/-- No computation of a price in range fails. -/
theorem exists_price (h : InRange t) : ∃ p, price t = .ok p := by
  rw [price, if_pos h]
  split_ifs with zero
  · exact ⟨_, rfl⟩
  have decades := decade_mem h
  have places := stepExponent_ge h
  have zeros := stepExponent_le h
  obtain ⟨start, decadePower⟩ := exists_powerOfTen?_iff.mpr
    (show (decade t).natAbs ≤ maxScale by unfold maxScale; omega)
  obtain ⟨step, stepPower⟩ := exists_powerOfTen?_iff.mpr
    (show (stepExponent t).natAbs ≤ maxScale by unfold maxScale; omega)
  obtain ⟨count, written⟩ := exists_ofParts? (steps_fit t) (Nat.zero_le maxScale)
  have value_count : count.value = steps t := by
    rw [value_of_ofParts? written, tenTo_zero, Nat.cast_one, div_one]
  obtain ⟨offset, product⟩ : ∃ offset, count.mul? step = some offset := by
    refine exists_mul? ?_
    rw [value_count, value_of_powerOfTen? stepPower]
    exact abs_offset_le h
  have value_offset : offset.value = steps t * 10 ^ stepExponent t :=
    value_of_offset written stepPower product (steps_fit t) (by omega)
  obtain ⟨sum, total⟩ : ∃ sum, start.add? offset = some sum := by
    refine exists_add? ?_
    rw [value_of_powerOfTen? decadePower, value_offset, ← exactPrice,
      abs_of_pos (exactPrice_pos t)]
    calc exactPrice t ≤ exactPrice highest := exactPrice_le h.2
      _ = 10 ^ 27 := exactPrice_highest
      _ ≤ maxCoefficient := by norm_num [maxCoefficient]
  exact ⟨sum, orError_eq_ok.mpr (Option.bind_eq_some_iff.mpr ⟨start, decadePower,
    Option.bind_eq_some_iff.mpr ⟨step, stepPower, Option.bind_eq_some_iff.mpr ⟨count, written,
      Option.bind_eq_some_iff.mpr ⟨offset, product, total⟩⟩⟩⟩)⟩

/-- Prices grow with ticks, as decimals. -/
theorem price_lt {u : Int} {p q : Decimal} (lower : price t = .ok p) (higher : price u = .ok q)
    (h : t < u) : p < q := by
  rw [lt_iff_value, value_of_price lower, value_of_price higher]
  exact exactPrice_lt h

theorem price_of_outOfRange (h : ¬ InRange t) : price t = .error (.tickOutOfRange t) := if_neg h

/-- Every tick in range has a price, the power of ten of its decade and its steps from there with
no rounding, and no other tick has; prices are positive and grow with ticks. -/
theorem price_spacing :
    (∀ t : Int, -108000000 ≤ t → t ≤ 243000000 →
      let d := t.tdiv 9000000
      let n := t - d * 9000000
      let e := d - 6 - if t < 0 then 1 else 0
      ∃ p, price t = .ok p ∧ p.value = 10 ^ d + n * 10 ^ e) ∧
    (∀ t u : Int, -108000000 ≤ t → t < u → u ≤ 243000000 →
      ∃ p q, price t = .ok p ∧ price u = .ok q ∧ 0 < p.value ∧ 0 < q.value ∧ p < q) ∧
    ∀ t : Int, t < -108000000 ∨ 243000000 < t → price t = .error (.tickOutOfRange t) := by
  refine ⟨fun t low high => ?_, fun t u low less high => ?_, fun t outside => ?_⟩
  · obtain ⟨p, computed⟩ := exists_price ⟨low, high⟩
    refine ⟨p, computed, ?_⟩
    rw [value_of_price computed, exactPrice, stepExponent, unitExponent, ← neg_add_eq_sub 6]
    rfl
  · obtain ⟨p, lower⟩ := exists_price (t := t) ⟨low, by unfold highest; omega⟩
    obtain ⟨q, higher⟩ := exists_price (t := u) ⟨by unfold lowest; omega, high⟩
    exact ⟨p, q, lower, higher, price_pos lower, price_pos higher, price_lt lower higher less⟩
  · refine price_of_outOfRange fun inRange => ?_
    obtain ⟨low, high⟩ := inRange
    unfold lowest at low
    unfold highest at high
    omega

/-- One step below a tenth, where the steps become shorter, and one tick above the range. -/
theorem price_spacing_below_tenth :
    (∃ p, price (-9000001) = .ok p ∧ p.value = 10 ^ (-1 : ℤ) + (-1 : ℤ) * 10 ^ (-8 : ℤ)) ∧
    (∃ p q, price (-9000001) = .ok p ∧ price (-9000000) = .ok q ∧ 0 < p.value ∧ 0 < q.value ∧
      p < q) ∧
    price 243000001 = .error (.tickOutOfRange 243000001) :=
  ⟨price_spacing.1 (-9000001) (by decide) (by decide),
    price_spacing.2.1 (-9000001) (-9000000) (by decide) (by decide) (by decide),
    price_spacing.2.2 243000001 (.inr (by decide))⟩

end CrossBook.Tick
