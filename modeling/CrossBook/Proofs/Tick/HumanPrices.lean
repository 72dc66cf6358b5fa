import CrossBook.Proofs.Amount.Truncation
import CrossBook.Proofs.Tick.Floors

/-!
# Human prices of ticks

The seven digits of a tick have a place wherever the point may move for the decimals of a pair, so
the human price of a tick is exact, leads back to the tick, and grows with it. All that can fail is
that a price becomes too large, which one tick does if a lower one does.

## Main results

* `Units.exists_humanPriceOfTick_iff` — the ticks with a human price
* `Units.exists_toChainPrice` — the chain price of a human price of a tick
* `Units.exists_last` — the ticks with a human price reach from the lowest up to some tick
* `Units.humanPrices_exact` — human prices in full
-/

namespace CrossBook.Units

open Decimal

variable {u : Units} {p r : Decimal} {t : Int}

theorem Moderate.gap_eq (h : u.Moderate) : u.gap = (u.base : ℤ) - u.quote := by
  rw [gap, Amount.exponentOfDecimals_of_le h.base_le, Amount.exponentOfDecimals_of_le h.quote_le]

theorem Moderate.gap_le (h : u.Moderate) : u.gap ≤ 28 := by
  have base := h.base_le
  rw [h.gap_eq]
  omega

theorem Moderate.natAbs_gap_le (h : u.Moderate) : u.gap.natAbs ≤ maxScale := by
  have low := h.gap_ge
  have high := h.gap_le
  unfold maxScale
  omega

theorem lowestExponent_eq : Amount.lowestExponent = -2147483648 := by decide

theorem Moderate.exponent_eq (h : u.Moderate) : u.exponent = .ok u.gap := by
  have low := h.gap_ge
  have high := h.gap_le
  have words : (twoTo 31 : ℤ) = 2147483648 := by decide
  rw [gap] at low high
  rw [exponent, if_pos (by rw [lowestExponent_eq, words]; omega), gap]

theorem Moderate.toHumanPrice_eq (h : u.Moderate) (p : Decimal) :
    u.toHumanPrice p = Amount.shift p u.gap := by
  rw [toHumanPrice, h.exponent_eq, ok_bind]

theorem Moderate.toChainPrice_eq (h : u.Moderate) (p : Decimal) :
    u.toChainPrice p = Amount.shift p (-u.gap) := by
  have low := h.gap_ge
  rw [toChainPrice, h.exponent_eq, ok_bind, Amount.negated,
    if_neg (by rw [lowestExponent_eq]; omega), ok_bind]

theorem humanPriceOfTick_eq_ok : u.humanPriceOfTick t = .ok r ↔
    ∃ p, Tick.price t = .ok p ∧ u.toHumanPrice p = .ok r := by
  rw [humanPriceOfTick, bind_eq_ok]
  simp only [liftM_eq_ok]

/-- The human price of a tick is its exact price times the power of ten of the pair. -/
theorem value_of_humanPriceOfTick (moderate : u.Moderate) (h : u.humanPriceOfTick t = .ok r) :
    r.value = Tick.exactPrice t * 10 ^ u.gap := by
  obtain ⟨p, price, human⟩ := humanPriceOfTick_eq_ok.mp h
  rw [value_of_toHumanPrice moderate price human, Tick.value_of_price price]

theorem inRange_of_humanPriceOfTick (h : u.humanPriceOfTick t = .ok r) : Tick.InRange t := by
  obtain ⟨p, price, -⟩ := humanPriceOfTick_eq_ok.mp h
  exact Tick.inRange_of_price price

/-- The ticks with a human price are those in range whose price in human units is not too large. -/
theorem exists_humanPriceOfTick_iff (moderate : u.Moderate) :
    (∃ r, u.humanPriceOfTick t = .ok r) ↔
      Tick.InRange t ∧ Tick.exactPrice t * 10 ^ u.gap ≤ maxCoefficient := by
  constructor
  · rintro ⟨r, human⟩
    refine ⟨inRange_of_humanPriceOfTick human, ?_⟩
    rw [← value_of_humanPriceOfTick moderate human]
    exact r.value_le_maxCoefficient
  · rintro ⟨inRange, small⟩
    obtain ⟨p, price⟩ := Tick.exists_price inRange
    have positive := Tick.exactPrice_pos t
    obtain ⟨r, shifted⟩ : ∃ r, Amount.shift p u.gap = .ok r := by
      refine Amount.exists_shift moderate.natAbs_gap_le ?_
      rwa [Tick.value_of_price price, abs_of_pos (by positivity)]
    refine ⟨r, humanPriceOfTick_eq_ok.mpr ⟨p, price, ?_⟩⟩
    rw [moderate.toHumanPrice_eq, shifted]

/-- The chain price of the human price of a tick is the price of the tick. -/
theorem exists_toChainPrice (moderate : u.Moderate) (price : Tick.price t = .ok p)
    (human : u.humanPriceOfTick t = .ok r) : ∃ c, u.toChainPrice r = .ok c ∧ c.SameValue p := by
  have back : r.value * 10 ^ (-u.gap) = p.value := by
    rw [value_of_humanPriceOfTick moderate human, Tick.value_of_price price, mul_assoc,
      ← zpow_add₀ (by norm_num), add_neg_cancel, zpow_zero, mul_one]
  have range : (-u.gap).natAbs ≤ maxScale := by
    rw [Int.natAbs_neg]
    exact moderate.natAbs_gap_le
  obtain ⟨c, shifted⟩ : ∃ c, Amount.shift r (-u.gap) = .ok c :=
    Amount.exists_shift range (by rw [back]; exact p.abs_value_le_maxCoefficient)
  have rounds := Amount.roundsTo_of_shift shifted
  rw [back] at rounds
  exact ⟨c, (moderate.toChainPrice_eq r).trans shifted, sameValue_iff_value.mpr rounds.value_eq⟩

/-- Any decimal with the price of a tick leads back to the tick. -/
theorem ofPrice_of_sameValue (price : Tick.price t = .ok p) {c : Decimal} (same : c.SameValue p) :
    Tick.ofPrice c = .ok t := by
  have value_c : c.value = Tick.exactPrice t := by
    rw [sameValue_iff_value.mp same, Tick.value_of_price price]
  obtain ⟨s, floor, computed⟩ :=
    Tick.exists_isFloor_of_pos (p := c) (by rw [value_c]; exact Tick.exactPrice_pos t)
  rw [value_c] at floor
  obtain rfl := floor.unique (Tick.isFloor_exactPrice t)
  exact computed.trans (Tick.checked_eq_ok.mpr ⟨Tick.inRange_of_price price, rfl⟩)

/-- The lowest tick has a human price. -/
theorem exists_lowest (moderate : u.Moderate) : ∃ r, u.humanPriceOfTick Tick.lowest = .ok r := by
  refine (exists_humanPriceOfTick_iff moderate).mpr ⟨by decide, ?_⟩
  have power : (10 : ℚ) ^ u.gap ≤ 10 ^ (28 : ℤ) :=
    zpow_le_zpow_right₀ (by norm_num) moderate.gap_le
  calc Tick.exactPrice Tick.lowest * 10 ^ u.gap
      ≤ 10 ^ (-12 : ℤ) * 10 ^ (28 : ℤ) := by
        rw [Tick.exactPrice_lowest]
        exact mul_le_mul_of_nonneg_left power (by positivity)
    _ ≤ maxCoefficient := by norm_num [maxCoefficient]

/-- The ticks with a human price reach from the lowest tick up to some tick. -/
theorem exists_last (moderate : u.Moderate) :
    ∃ last, ∀ t, (∃ r, u.humanPriceOfTick t = .ok r) ↔ Tick.lowest ≤ t ∧ t ≤ last := by
  obtain ⟨last, found, greatest⟩ := Int.exists_greatest_of_bdd
    (P := fun t => ∃ r, u.humanPriceOfTick t = .ok r)
    ⟨Tick.highest, fun t ⟨_, human⟩ => (inRange_of_humanPriceOfTick human).2⟩
    ⟨Tick.lowest, exists_lowest moderate⟩
  refine ⟨last, fun t => ⟨fun ⟨r, human⟩ => ?_, fun ⟨low, le⟩ => ?_⟩⟩
  · exact ⟨(inRange_of_humanPriceOfTick human).1, greatest t ⟨r, human⟩⟩
  · -- a lower tick has a smaller price, which fits if the larger one does
    obtain ⟨inRange, small⟩ := (exists_humanPriceOfTick_iff moderate).mp found
    refine (exists_humanPriceOfTick_iff moderate).mpr ⟨⟨low, le.trans inRange.2⟩, ?_⟩
    refine le_trans ?_ small
    exact mul_le_mul_of_nonneg_right (Tick.exactPrice_le le) (by positivity)

/-- Where the quote asset has at most nine decimals more than the base asset, the human price of a
tick is exactly its price in human units. Its chain price is exactly the price of the tick, which
leads back to the tick. Human prices grow with ticks, and the ticks that have one reach from the
lowest tick up to some tick. -/
theorem humanPrices_exact (moderate : u.Moderate) :
    (∀ t r, u.humanPriceOfTick t = .ok r →
      ∃ p, Tick.price t = .ok p ∧ r.value = p.value * 10 ^ ((u.base : ℤ) - u.quote) ∧
        ∃ c, u.toChainPrice r = .ok c ∧ c.SameValue p ∧ Tick.ofPrice c = .ok t) ∧
    (∀ s t p r, u.humanPriceOfTick s = .ok p → u.humanPriceOfTick t = .ok r → s < t → p < r) ∧
    ∃ last, Tick.InRange last ∧
      ∀ t, (∃ r, u.humanPriceOfTick t = .ok r) ↔ Tick.lowest ≤ t ∧ t ≤ last := by
  refine ⟨fun t r human => ?_, fun s t p r lower higher less => ?_, ?_⟩
  · obtain ⟨p, price, converted⟩ := humanPriceOfTick_eq_ok.mp human
    obtain ⟨c, chain, same⟩ := exists_toChainPrice moderate price human
    refine ⟨p, price, ?_, c, chain, same, ofPrice_of_sameValue price same⟩
    rw [← moderate.gap_eq, value_of_toHumanPrice moderate price converted]
  · rw [lt_iff_value, value_of_humanPriceOfTick moderate lower,
      value_of_humanPriceOfTick moderate higher]
    exact mul_lt_mul_of_pos_right (Tick.exactPrice_lt less) (by positivity)
  · obtain ⟨last, reach⟩ := exists_last moderate
    have lowest : Tick.lowest ≤ last := ((reach Tick.lowest).mp (exists_lowest moderate)).2
    obtain ⟨r, human⟩ := (reach last).mpr ⟨lowest, le_rfl⟩
    exact ⟨last, inRange_of_humanPriceOfTick human, reach⟩

/-- The pair with as many more decimals of its quote asset as may be: the lowest tick, whose price
then has all places, and a tick without a price behind the last one of a pair with many decimals of
its base asset. -/
theorem humanPrices_exact_of_nine_apart :
    (∃ r, (⟨6, 15⟩ : Units).humanPriceOfTick (-107999999) = .ok r ∧
      ∃ p, Tick.price (-107999999) = .ok p ∧ r.value = p.value * 10 ^ ((6 : ℤ) - 15) ∧
        ∃ c, (⟨6, 15⟩ : Units).toChainPrice r = .ok c ∧ c.SameValue p ∧
          Tick.ofPrice c = .ok (-107999999)) ∧
    ∃ last, Tick.InRange last ∧
      ∀ t, (∃ r, (⟨28, 0⟩ : Units).humanPriceOfTick t = .ok r) ↔ Tick.lowest ≤ t ∧ t ≤ last := by
  obtain ⟨r, human, -⟩ := exists_eq_ok (x := (⟨6, 15⟩ : Units).humanPriceOfTick (-107999999))
    (P := fun _ => True) (by decide +kernel)
  exact ⟨⟨r, human, (humanPrices_exact ⟨by decide, by decide, by decide⟩).1 _ r human⟩,
    (humanPrices_exact ⟨by decide, by decide, by decide⟩).2.2⟩

end CrossBook.Units
