import CrossBook.Proofs.Decimal.Range
import CrossBook.Proofs.Trade.Opportunity

/-!
# Detection is exact up to the last place

The depth of a crossing takes a quotient, a difference and a product. Only the quotient is rounded:
it lies between zero and one, so it has all its places and is off by half a unit of the last one at
most; what it leaves of one has as many places, and in ten-thousandths four of them are whole.

## Main definitions

* `Trade.exactDeviation` — the depth of a crossing before anything is rounded

## Main results

* `Trade.value_of_complement` — what a ratio leaves of one is kept, also when its point is moved
* `Trade.deviationBps_near` — the depth is off by half a unit of the twenty-fourth place at most
* `Trade.Opportunity.ofPrices?_exact` — a bid over an ask is an opportunity when it is deep enough
-/

namespace CrossBook.Trade

open Decimal

variable {floor bid ask d : Decimal} {direction : Direction}

/-- How far the ask lies under the bid, in ten-thousandths of the bid and without any rounding. -/
def exactDeviation (bid ask : Decimal) : ℚ := 10000 * (1 - ask.value / bid.value)

/-- What a ratio leaves of one has no more places than a decimal, however far its point is moved to
the right. -/
theorem value_of_complement {ratio : Decimal} (nonneg : 0 ≤ ratio.value) (le_one : ratio.value ≤ 1)
    (places : ℕ) (h : RoundsTo ((1 - ratio.value) * 10 ^ places) d) :
    d.value = (1 - ratio.value) * 10 ^ places := by
  -- in units of the last place the complement is a whole number between zero and one's units
  have units_value := ratio.units_eq
  have one_units : (unitsOfOne : ℚ) = 10 ^ 28 := tenTo_cast maxScale
  rw [one_units] at units_value
  have units_nonneg : 0 ≤ ratio.units := by
    have : (0 : ℚ) ≤ ratio.units := by rw [units_value]; positivity
    exact_mod_cast this
  have units_le : ratio.units ≤ 10 ^ 28 := by
    have : (ratio.units : ℚ) ≤ 10 ^ 28 := by
      rw [units_value]
      exact mul_le_of_le_one_left (by positivity) le_one
    exact_mod_cast this
  have scientific : (1 - ratio.value) * 10 ^ places =
      ((10 ^ 28 - ratio.units : ℤ) : ℚ) * 10 ^ (places - 28 : ℤ) := by
    rw [zpow_sub₀ (by norm_num), zpow_natCast, Int.cast_sub, units_value]
    push_cast
    field_simp
    ring
  rw [scientific] at h ⊢
  refine h.value_eq_scientific ?_ ?_
  · unfold maxCoefficient
    omega
  · unfold maxScale
    omega

/-- The depth of a crossing is off by half a unit of the twenty-fourth place at most. -/
theorem deviationBps_near (positive : 0 < bid.value) (nonneg : 0 ≤ ask.value)
    (le : ask.value ≤ bid.value) (h : deviationBps bid ask = .ok (some d)) :
    |d.value - exactDeviation bid ask| ≤ 5 / 10 ^ 25 := by
  obtain ⟨ratio, gap, quotient, difference, product⟩ := roundsTo_of_deviationBps h
  have fraction_nonneg : 0 ≤ ask.value / bid.value := div_nonneg nonneg positive.le
  have fraction_le : ask.value / bid.value ≤ 1 := (div_le_one positive).mpr le
  have ratio_nonneg := quotient.nonneg fraction_nonneg
  have ratio_le := quotient.le (d := one) (by rwa [value_one])
  rw [value_one] at ratio_le
  have gap_value : gap.value = 1 - ratio.value := by
    simpa using value_of_complement ratio_nonneg ratio_le 0 (by simpa using difference)
  have depth_value : d.value = (1 - ratio.value) * 10 ^ 4 := by
    refine value_of_complement ratio_nonneg ratio_le 4 ?_
    rw [← gap_value]
    norm_num
    exact product
  have near : |ratio.value - ask.value / bid.value| ≤ 1 / (2 * 10 ^ 28) := by
    apply quotient.abs_sub_le
    rw [abs_of_nonneg fraction_nonneg]
    calc ask.value / bid.value * 10 ^ 28 ≤ (1 : ℚ) * 10 ^ 28 := by gcongr
      _ ≤ (maxCoefficient : ℚ) := by norm_num [maxCoefficient]
  calc |d.value - exactDeviation bid ask|
      = |10 ^ 4 * (ask.value / bid.value - ratio.value)| := by
        rw [depth_value, exactDeviation]
        congr 1
        ring
    _ = 10 ^ 4 * |ratio.value - ask.value / bid.value| := by
        rw [abs_mul, abs_sub_comm, abs_of_pos (by norm_num)]
    _ ≤ 10 ^ 4 * (1 / (2 * 10 ^ 28)) := by gcongr
    _ = 5 / 10 ^ 25 := by norm_num

namespace Opportunity

/-- Detection never aborts over an ask that is not negative. It finds nothing unless the bid is
positive and above the ask, and then decides by the depth of the crossing, which is off by half a
unit of the twenty-fourth place at most. -/
theorem ofPrices?_exact (floor : Decimal) (direction : Direction) (bid : Decimal)
    (nonneg : zero ≤ ask) :
    ∃ found, ofPrices? floor direction (some bid) (some ask) = .ok found ∧
      (bid ≤ zero ∨ bid ≤ ask → found = none) ∧
      (zero < bid → ask < bid →
        (∃ d, deviationBps bid ask = .ok (some d) ∧
          |d.value - exactDeviation bid ask| ≤ 5 / 10 ^ 25 ∧
          found = if floor ≤ d then some ⟨direction, bid, ask, d⟩ else none) ∧
        (exactDeviation bid ask + 5 / 10 ^ 25 < floor.value → found = none) ∧
        (floor.value + 5 / 10 ^ 25 ≤ exactDeviation bid ask → found.isSome)) := by
  rw [le_iff_value, value_zero] at nonneg
  by_cases crossed : bid ≤ zero ∨ bid ≤ ask
  · refine ⟨none, if_pos crossed, fun _ => rfl, ?_⟩
    intro positive below
    rcases crossed with low | low
    · exact absurd low (not_le_iff_lt.mpr positive)
    · exact absurd low (not_le_iff_lt.mpr below)
  · have apart := crossed
    rw [not_or, not_le_iff_lt, not_le_iff_lt, lt_iff_value, lt_iff_value, value_zero] at apart
    obtain ⟨positive, below⟩ := apart
    obtain ⟨d, depth⟩ := exists_deviationBps positive nonneg below.le
    have near := deviationBps_near positive nonneg below.le depth
    obtain ⟨lower, upper⟩ := abs_le.mp near
    refine ⟨_, ofPrices_eq positive below depth, fun h => absurd h crossed, fun _ _ => ?_⟩
    refine ⟨⟨d, depth, near, rfl⟩, ?_, ?_⟩
    · intro shallow
      apply if_neg
      rw [le_iff_value, not_le]
      linarith
    · intro deep
      rw [if_pos (le_iff_value.mpr (by linarith))]
      rfl

/-- Two thirds have no last place: the depth of three over one is rounded up to a floor that it
does not quite reach. -/
theorem ofPrices?_exact_of_two_thirds :
    let floor : Decimal := ⟨false, 6666666666666666666666666667, 24, by decide, by decide⟩
    let bid : Decimal := .ofWord 3 0
    zero ≤ one ∧ exactDeviation bid one < floor.value ∧
      ∃ d, deviationBps bid one = .ok (some d) ∧ |d.value - exactDeviation bid one| ≤ 5 / 10 ^ 25 ∧
        ofPrices? floor .chainBid (some bid) (some one) = .ok (some ⟨.chainBid, bid, one, d⟩) := by
  intro floor bid
  have short : exactDeviation bid one < floor.value := by
    have three : bid.value = 3 := by simp [bid, ofWord, value, coefficient]
    rw [exactDeviation, three, value_one]
    norm_num [floor, value, coefficient, tenTo]
  obtain ⟨_, detected, o, rfl, -⟩ := exists_eq_ok
    (x := ofPrices? floor .chainBid (some bid) (some one))
    (P := fun found => ∃ o ∈ found, floor ≤ o.deviation) (by decide +kernel)
  obtain ⟨_, found, -, deep⟩ := ofPrices?_exact floor .chainBid bid (show zero ≤ one by decide)
  obtain rfl := Except.ok.inj (detected.symm.trans found)
  obtain ⟨⟨d, depth, near, opportunity⟩, -⟩ := deep (by decide) (by decide)
  refine ⟨by decide, short, d, depth, near, ?_⟩
  -- something was found, so the depth that was computed reaches the floor
  split_ifs at opportunity with reached
  rw [detected, opportunity]

end Opportunity

end CrossBook.Trade
