import CrossBook.Proofs.Tick.Prices

/-!
# The highest tick whose price is not above a price

A price lies in the decade that the search for a power of ten finds, and there as many even steps
away as the quotient says. Neither the distance nor the quotient is rounded, so the whole steps lead
to the highest tick whose price the price reaches.

## Main definitions

* `Tick.IsFloor` — the tick is the highest whose price is not above a number

## Main results

* `Tick.isFloor_above`, `Tick.isFloor_below` — whole steps lead to that tick
* `Tick.decadeAbove_spec`, `Tick.decadeBelow_spec` — the searches find the decade of a price
* `Tick.exists_isFloor_of_pos` — the computed tick is that tick where it is in range
* `Tick.ofPrice_floor_inverse` — prices from the lowest tick up to past the highest have their tick
-/

namespace CrossBook.Tick

open Decimal

variable {t u : Int} {p : Decimal} {x : ℚ}

/-- The tick is the highest whose price is not above a number. -/
def IsFloor (t : Int) (x : ℚ) : Prop := exactPrice t ≤ x ∧ x < exactPrice (t + 1)

theorem isFloor_exactPrice (t : Int) : IsFloor t (exactPrice t) := ⟨le_rfl, exactPrice_lt_succ t⟩

theorem IsFloor.le_iff (h : IsFloor t x) : u ≤ t ↔ exactPrice u ≤ x := by
  constructor
  · intro le
    exact (exactPrice_le le).trans h.1
  · intro reached
    by_contra above
    have next : exactPrice (t + 1) ≤ exactPrice u := exactPrice_le (by omega)
    exact absurd h.2 (not_lt.mpr (next.trans reached))

theorem IsFloor.lt_iff (h : IsFloor t x) : t < u ↔ x < exactPrice u := by
  rw [← not_le, h.le_iff, not_le]

theorem IsFloor.unique (h : IsFloor t x) (h' : IsFloor u x) : t = u :=
  le_antisymm (h'.le_iff.mpr h.1) (h.le_iff.mpr h'.1)

theorem exactPrice_highest_succ : exactPrice (highest + 1) = 10 ^ 27 + 10 ^ 21 := by
  have := exactPrice_above (k := 27) (n := 1) (by norm_num) (by norm_num) (by norm_num)
  rw [highest]
  norm_num at this ⊢
  exact this

/-- The prices with a tick in range. -/
theorem IsFloor.inRange_iff (h : IsFloor t x) :
    InRange t ↔ 10 ^ (-12 : ℤ) ≤ x ∧ x < 10 ^ 27 + 10 ^ 21 := by
  rw [InRange, h.le_iff, exactPrice_lowest, ← Int.lt_add_one_iff, h.lt_iff,
    exactPrice_highest_succ]

/-! ### Whole steps from the power of ten -/

/-- Where the prices of neighbouring ticks are one step apart, whole steps lead to the tick. -/
theorem isFloor_of_even {start step : ℚ} {base a b : ℤ} (positive : 0 < step)
    (even : ∀ n, a ≤ n → n ≤ b → exactPrice (base + n) = start + n * step)
    (low : start + a * step ≤ x) (high : x < start + b * step) :
    IsFloor (base + ⌊(x - start) / step⌋) x := by
  have started : a ≤ ⌊(x - start) / step⌋ := by
    rw [Int.le_floor, le_div_iff₀ positive]
    linarith
  have ended : ⌊(x - start) / step⌋ < b := by
    rw [Int.floor_lt, div_lt_iff₀ positive]
    linarith
  have whole : ⌊(x - start) / step⌋ * step ≤ x - start :=
    (le_div_iff₀ positive).mp (Int.floor_le _)
  have part : x - start < (⌊(x - start) / step⌋ + 1) * step :=
    (div_lt_iff₀ positive).mp (Int.lt_floor_add_one _)
  constructor
  · rw [even _ started ended.le]
    linarith
  · rw [add_assoc, even _ (by omega) (by omega)]
    push_cast
    linarith

theorem isFloor_above {k : ℤ} (above : 0 ≤ k) (reached : 10 ^ k ≤ x) (within : x < 10 ^ (k + 1)) :
    IsFloor (9000000 * k + ⌊(x - 10 ^ k) / 10 ^ (k - 6)⌋) x := by
  refine isFloor_of_even (a := 0) (b := 9000000) (by positivity)
    (fun n => exactPrice_above above) ?_ ?_
  · simpa using reached
  · push_cast
    rwa [zpow_add_steps]

theorem isFloor_below {k : ℤ} (below : k ≤ 0) (within : 10 ^ (k - 1) ≤ x) (exceeded : x < 10 ^ k) :
    IsFloor (9000000 * k + ⌊(x - 10 ^ k) / 10 ^ (k - 7)⌋) x := by
  refine isFloor_of_even (a := -9000000) (b := 0) (by positivity)
    (fun n low high => exactPrice_below below high low) ?_ ?_
  · push_cast
    rw [neg_mul, ← sub_eq_add_neg, zpow_sub_steps]
    exact within
  · simpa using exceeded

/-! ### The search for the decade -/

theorem reaches_iff {k : Nat} (small : k ≤ maxScale) : reaches p k ↔ 10 ^ (k : ℤ) ≤ p.value := by
  obtain ⟨d, power⟩ := exists_powerOfTen?_iff.mpr (show (k : ℤ).natAbs ≤ maxScale by simpa)
  rw [reaches, power, ← value_of_powerOfTen? power, ← le_iff_value]
  exact decide_eq_true_iff

theorem exceeds_iff {k : Nat} (small : k ≤ maxScale) :
    exceeds p (-k) ↔ p.value < 10 ^ (-k : ℤ) := by
  obtain ⟨d, power⟩ := exists_powerOfTen?_iff.mpr (show (-k : ℤ).natAbs ≤ maxScale by simpa)
  rw [exceeds, power, ← value_of_powerOfTen? power, ← lt_iff_value]
  exact decide_eq_true_iff

/-- The search upwards ends at the decade of a price from one up to the bound. -/
theorem decadeAbove_spec (one_le : 1 ≤ p.value) {bound : Nat} (small : bound ≤ maxScale)
    (within : p.value < 10 ^ (bound + 1 : ℤ)) :
    decadeAbove p bound ≤ bound ∧ 10 ^ (decadeAbove p bound : ℤ) ≤ p.value ∧
      p.value < 10 ^ (decadeAbove p bound + 1 : ℤ) := by
  induction bound with
  | zero => simpa [decadeAbove] using ⟨one_le, within⟩
  | succ k ih =>
    rw [decadeAbove]
    have reached := reaches_iff (p := p) small
    push_cast at reached
    split_ifs with enough
    · exact ⟨le_rfl, by exact_mod_cast reached.mp enough, by exact_mod_cast within⟩
    · obtain ⟨le, low, high⟩ := ih (by omega) (not_le.mp (mt reached.mpr enough))
      exact ⟨by omega, low, high⟩

/-- The search downwards ends at the decade of a price below one, down to the bound. -/
theorem decadeBelow_spec (lt_one : p.value < 1) {bound : Nat} (small : bound ≤ maxScale)
    (within : 10 ^ (-bound - 1 : ℤ) ≤ p.value) :
    decadeBelow p bound ≤ bound ∧ p.value < 10 ^ (-decadeBelow p bound : ℤ) ∧
      10 ^ (-decadeBelow p bound - 1 : ℤ) ≤ p.value := by
  induction bound with
  | zero => simpa [decadeBelow] using ⟨lt_one, within⟩
  | succ k ih =>
    rw [decadeBelow]
    have exceeded := exceeds_iff (p := p) small
    push_cast at exceeded
    split_ifs with enough
    · exact ⟨le_rfl, by exact_mod_cast exceeded.mp enough, by exact_mod_cast within⟩
    · obtain ⟨le, high, low⟩ := ih (by omega) <| by
        have := not_lt.mp (mt exceeded.mpr enough)
        rwa [neg_add] at this
      exact ⟨by omega, high, low⟩

/-! ### The computed tick -/

/-- The tick where it is in range; the price has none where it is not. -/
def checked (p : Decimal) (t : Int) : Except Failure Int :=
  if InRange t then .ok t else .error (.ofDomain (.priceOutOfRange p))

theorem checked_eq_ok {v : Int} : checked p t = .ok v ↔ InRange t ∧ t = v := by
  unfold checked
  split_ifs with inRange <;> simp [inRange]

theorem not_le_zero (positive : 0 < p.value) : ¬ p ≤ zero := by
  rw [le_iff_value, value_zero]
  exact not_le.mpr positive

/-- Where the distance to the power of ten and the steps in it are decimals, the tick is counted
without rounding. -/
theorem ofPrice_of_exact {k e m j : ℤ} (positive : 0 < p.value) (other : p.value ≠ 1)
    (found : decadeOfPrice p = (k, e)) (decade : k.natAbs ≤ maxScale) (step : e.natAbs ≤ maxScale)
    (distance : p.value - 10 ^ k = m * 10 ^ j) (fits : m.natAbs ≤ maxCoefficient)
    (places : -(maxScale : ℤ) ≤ j) (places' : -(maxScale : ℤ) ≤ j - e)
    (small : |p.value - 10 ^ k| ≤ maxCoefficient) (near : |(p.value - 10 ^ k) / 10 ^ e| ≤ 9000000) :
    ofPrice p = checked p (9000000 * k + ⌊(p.value - 10 ^ k) / 10 ^ e⌋) := by
  obtain ⟨start, powered⟩ := exists_powerOfTen?_iff.mpr decade
  obtain ⟨unit, stepped⟩ := exists_powerOfTen?_iff.mpr step
  have value_start := value_of_powerOfTen? powered
  have value_unit := value_of_powerOfTen? stepped
  obtain ⟨way, difference⟩ : ∃ way, p.sub? start = some way := by
    refine exists_sub? ?_
    rwa [value_start]
  have value_way : way.value = p.value - 10 ^ k := by
    have rounds := roundsTo_of_sub? difference
    rw [value_start, distance] at rounds
    rw [distance]
    exact rounds.value_eq_scientific fits places
  obtain ⟨count, quotient⟩ : ∃ count, way.div? unit = some count := by
    refine exists_div? (by rw [value_unit]; positivity) ?_
    rw [value_way, value_unit]
    exact near.trans (by norm_num [maxCoefficient])
  have value_count : count.value = (p.value - 10 ^ k) / 10 ^ e := by
    have rounds := roundsTo_of_div? quotient
    have shifted : (p.value - 10 ^ k) / 10 ^ e = m * 10 ^ (j - e) := by
      rw [distance, zpow_sub₀ (by norm_num), mul_div_assoc]
    rw [value_way, value_unit, shifted] at rounds
    rw [shifted]
    exact rounds.value_eq_scientific fits places'
  have word : count.floor.toInt64? = some ⌊(p.value - 10 ^ k) / 10 ^ e⌋ := by
    rw [toInt64?_floor, value_count, if_pos]
    obtain ⟨low, high⟩ := abs_le.mp near
    have low : -9000000 ≤ ⌊(p.value - 10 ^ k) / 10 ^ e⌋ := Int.le_floor.mpr (by exact_mod_cast low)
    have high : ⌊(p.value - 10 ^ k) / 10 ^ e⌋ ≤ 9000000 := by
      exact_mod_cast (Int.floor_le _).trans high
    have words : (twoTo 63 : ℤ) = 2 ^ 63 := by decide
    omega
  have different : ¬ p.SameValue one := by rwa [sameValue_iff_value, value_one]
  rw [ofPrice, if_neg (not_le_zero positive), if_neg different, found]
  dsimp only
  rw [powered, orError_some, ok_bind, stepped, orError_some, ok_bind, Decimal.minus, difference,
    orAbort_some, ok_bind, quotient, orError_some, ok_bind, word, orError_some, ok_bind, perDecade,
    mul_comm k, checked]

theorem decadeOfPrice_above (h : 1 < p.value) :
    decadeOfPrice p = ((decadeAbove p maxScale : ℤ), (decadeAbove p maxScale : ℤ) - 6) := by
  rw [decadeOfPrice, if_pos (by rwa [lt_iff_value, value_one]), unitExponent]
  simp only [neg_add_eq_sub]

theorem decadeOfPrice_below (h : p.value < 1) :
    decadeOfPrice p = (-(decadeBelow p maxScale : ℤ), -(decadeBelow p maxScale : ℤ) - 7) := by
  rw [decadeOfPrice, if_neg (by rw [lt_iff_value, value_one]; exact not_lt.mpr h.le), unitExponent]
  simp only [Prod.mk.injEq, true_and]
  ring

theorem zpow_eq_pow_mul {k j : ℤ} {n : ℕ} (sum : k + j = n) :
    (10 : ℚ) ^ k = (10 ^ n : ℤ) * 10 ^ (-j) := by
  push_cast
  rw [← zpow_natCast, ← sum, ← zpow_add₀ (by norm_num), add_neg_cancel_right]

/-- At the scale of a price, a power of ten that it reaches is no longer than its coefficient. -/
theorem pow_le_coefficient {k : ℕ} (reached : 10 ^ (k : ℤ) ≤ p.value) :
    (10 ^ (k + p.scale) : ℤ) ≤ p.coefficient := by
  rw [Amount.value_eq_mul_zpow, zpow_eq_pow_mul (Nat.cast_add k p.scale).symm] at reached
  exact_mod_cast le_of_mul_le_mul_right reached (by positivity)

theorem add_scale_le {k : ℕ} (reached : 10 ^ (k : ℤ) ≤ p.value) : k + p.scale ≤ 28 := by
  have fits : (p.coefficient.natAbs : ℤ) ≤ maxCoefficient := by
    exact_mod_cast p.natAbs_coefficient_le
  have large : (maxCoefficient : ℤ) < 10 ^ 29 := by decide
  have power : (10 : ℤ) ^ (k + p.scale) < 10 ^ 29 :=
    ((pow_le_coefficient reached).trans Int.le_natAbs).trans_lt (fits.trans_lt large)
  exact Nat.le_of_lt_succ ((pow_lt_pow_iff_right₀ (by norm_num)).mp power)

theorem ofPrice_above (h : 1 < p.value) : ∃ t, IsFloor t p.value ∧ ofPrice p = checked p t := by
  have bounded : p.value < 10 ^ (maxScale + 1 : ℤ) :=
    (value_le_maxCoefficient p).trans_lt (by norm_num [maxCoefficient, maxScale])
  obtain ⟨le, low, high⟩ := decadeAbove_spec h.le le_rfl bounded
  have found := decadeOfPrice_above h
  generalize decadeAbove p maxScale = k at *
  refine ⟨_, isFloor_above (by positivity) low high, ?_⟩
  have nonneg : (0 : ℚ) ≤ p.value - 10 ^ (k : ℤ) := sub_nonneg.mpr low
  have scaled := Amount.value_eq_mul_zpow p
  have power := zpow_eq_pow_mul (k := k) (j := p.scale) (n := k + p.scale) (Nat.cast_add _ _).symm
  have fits := p.natAbs_coefficient_le
  have coefficient := pow_le_coefficient low
  have short := add_scale_le low
  have positive : (0 : ℤ) ≤ 10 ^ (k + p.scale) := by positivity
  refine ofPrice_of_exact (m := p.coefficient - 10 ^ (k + p.scale)) (j := -p.scale)
    (by linarith) h.ne' found (by simpa using le) ?_ ?_ ?_ ?_ ?_ ?_ ?_
  · unfold maxScale at *
    omega
  · rw [Int.cast_sub, sub_mul, ← scaled, ← power]
  · omega
  · unfold maxScale
    omega
  · unfold maxScale
    omega
  · rw [abs_of_nonneg nonneg]
    have : (0 : ℚ) < 10 ^ (k : ℤ) := by positivity
    linarith [value_le_maxCoefficient p]
  · rw [abs_of_nonneg (by positivity), div_le_iff₀ (by positivity)]
    rw [← zpow_add_steps] at high
    linarith

/-- A price so small that the steps of its decade are no decimals has no tick. -/
theorem ofPrice_of_tiny {k : ℕ} (positive : 0 < p.value) (other : p.value ≠ 1)
    (found : decadeOfPrice p = (-(k : ℤ), -(k : ℤ) - 7)) (le : k ≤ maxScale) (tiny : 21 < k) :
    ofPrice p = .error (.ofDomain (.priceOutOfRange p)) := by
  obtain ⟨start, powered⟩ := exists_powerOfTen?_iff.mpr (show (-k : ℤ).natAbs ≤ maxScale by simpa)
  have noStep : powerOfTen? (-(k : ℤ) - 7) = none := by
    refine Option.eq_none_iff_forall_ne_some.mpr fun d power => ?_
    have := exists_powerOfTen?_iff.mp ⟨d, power⟩
    unfold maxScale at this
    omega
  have different : ¬ p.SameValue one := by rwa [sameValue_iff_value, value_one]
  rw [ofPrice, if_neg (not_le_zero positive), if_neg different, found]
  dsimp only
  rw [powered, orError_some, ok_bind, noStep, orError_none, error_bind]

theorem ofPrice_below (positive : 0 < p.value) (h : p.value < 1) :
    ∃ t, IsFloor t p.value ∧ ofPrice p = checked p t := by
  have scaled := value_eq_units_mul_zpow p
  have unit : 10 ^ (-maxScale - 1 : ℤ) ≤ p.value := by
    have : (1 : ℚ) ≤ p.units := by exact_mod_cast units_pos positive
    rw [scaled]
    calc (10 : ℚ) ^ (-maxScale - 1 : ℤ) ≤ 1 * 10 ^ (-28 : ℤ) := by norm_num [maxScale]
      _ ≤ p.units * 10 ^ (-28 : ℤ) := mul_le_mul_of_nonneg_right this (by positivity)
  obtain ⟨le, high, low⟩ := decadeBelow_spec h le_rfl unit
  have found := decadeOfPrice_below h
  generalize decadeBelow p maxScale = k at *
  have floor := isFloor_below (by simp) low high
  refine ⟨_, floor, ?_⟩
  rcases le_or_gt k 21 with wide | tiny
  · have power := zpow_eq_pow_mul (k := -k) (j := 28) (n := 28 - k) (by omega)
    have distance : p.value - 10 ^ (-k : ℤ) = (p.units - 10 ^ (28 - k) : ℤ) * 10 ^ (-28 : ℤ) := by
      rw [Int.cast_sub, sub_mul, ← scaled, ← power]
    have most : (10 : ℤ) ^ (28 - k) ≤ 10 ^ 28 := pow_le_pow_right₀ (by norm_num) (by omega)
    have below : p.units < 10 ^ (28 - k) := by
      rw [power, scaled] at high
      exact_mod_cast lt_of_mul_lt_mul_right high (by positivity)
    have counted := units_pos positive
    have large : (10 ^ 28 : ℤ) ≤ maxCoefficient := by decide
    have one_ge : (10 : ℚ) ^ (-k : ℤ) ≤ 1 := zpow_le_one_of_nonpos₀ (by norm_num) (by simp)
    refine ofPrice_of_exact positive h.ne found (by simpa using le) ?_ distance (by omega) ?_ ?_ ?_ ?_
    · unfold maxScale
      omega
    · exact le_rfl
    · unfold maxScale
      omega
    · rw [abs_of_neg (by linarith), neg_sub]
      have : (1 : ℚ) ≤ maxCoefficient := by norm_num [maxCoefficient]
      linarith
    · rw [abs_div, abs_of_neg (by linarith), abs_of_pos (by positivity),
        div_le_iff₀ (by positivity)]
      rw [← zpow_sub_steps] at low
      linarith
  · have low : ¬ InRange (9000000 * -(k : ℤ) + ⌊(p.value - 10 ^ (-k : ℤ)) / 10 ^ (-k - 7 : ℤ)⌋) := by
      rw [floor.inRange_iff, not_and_or, not_le]
      exact .inl (high.trans_le (zpow_le_zpow_right₀ (by norm_num) (by omega)))
    rw [ofPrice_of_tiny positive h.ne found le tiny, checked, if_neg low]

/-- Of a positive price the computation finds the highest tick whose price is not above it. -/
theorem exists_isFloor_of_pos (positive : 0 < p.value) :
    ∃ t, IsFloor t p.value ∧ ofPrice p = checked p t := by
  rcases lt_trichotomy p.value 1 with below | one | above
  · exact ofPrice_below positive below
  · refine ⟨0, ?_, ?_⟩
    · rw [one]
      have := isFloor_exactPrice 0
      rwa [show exactPrice 0 = 1 by simpa using exactPrice_above le_rfl le_rfl (by norm_num)] at this
    · have same : p.SameValue .one := by rwa [sameValue_iff_value, value_one]
      rw [ofPrice, if_neg (not_le_zero positive), if_pos same]
      rfl
  · exact ofPrice_above above

theorem ofPrice_of_nonpos (h : p.value ≤ 0) :
    ofPrice p = .error (.ofDomain (.priceOutOfRange p)) := by
  rw [ofPrice, if_pos (by rwa [le_iff_value, value_zero])]

/-- A price from that of the lowest tick up to a step past the highest has the highest tick whose
price is not above it, any other price is out of range, and a tick is found again from its price. -/
theorem ofPrice_floor_inverse :
    (∀ p : Decimal, 10 ^ (-12 : ℤ) ≤ p.value → p.value < 10 ^ 27 + 10 ^ 21 →
      ∃ t, ofPrice p = .ok t ∧ InRange t ∧ (∃ q, price t = .ok q ∧ q ≤ p) ∧
        ∀ u, InRange u → t < u → ∃ q, price u = .ok q ∧ p < q) ∧
    (∀ p : Decimal, ¬ (10 ^ (-12 : ℤ) ≤ p.value ∧ p.value < 10 ^ 27 + 10 ^ 21) →
      ofPrice p = .error (.ofDomain (.priceOutOfRange p))) ∧
    ∀ t, InRange t → ∃ p, price t = .ok p ∧ ofPrice p = .ok t := by
  refine ⟨fun p low high => ?_, fun p outside => ?_, fun t inRange => ?_⟩
  · obtain ⟨t, floor, computed⟩ := exists_isFloor_of_pos (lt_of_lt_of_le (by positivity) low)
    have inRange := floor.inRange_iff.mpr ⟨low, high⟩
    rw [checked, if_pos inRange] at computed
    refine ⟨t, computed, inRange, ?_, fun u inRange' less => ?_⟩
    · obtain ⟨q, found⟩ := exists_price inRange
      refine ⟨q, found, ?_⟩
      rw [le_iff_value, value_of_price found]
      exact floor.1
    · obtain ⟨q, found⟩ := exists_price inRange'
      refine ⟨q, found, ?_⟩
      rw [lt_iff_value, value_of_price found]
      exact floor.lt_iff.mp less
  · rcases le_or_gt p.value 0 with nonpos | positive
    · exact ofPrice_of_nonpos nonpos
    · obtain ⟨t, floor, computed⟩ := exists_isFloor_of_pos positive
      rwa [checked, if_neg (mt floor.inRange_iff.mp outside)] at computed
  · obtain ⟨p, found⟩ := exists_price inRange
    obtain ⟨u, floor, computed⟩ := exists_isFloor_of_pos (price_pos found)
    rw [value_of_price found] at floor
    obtain rfl := floor.unique (isFloor_exactPrice t)
    exact ⟨p, found, computed.trans (checked_eq_ok.mpr ⟨inRange, rfl⟩)⟩

/-- A price just below a tenth, where the decades meet, and a price below all ticks. -/
theorem ofPrice_floor_inverse_below_tenth :
    (∃ t, ofPrice ⟨false, 99999999999, 12, by decide, by decide⟩ = .ok t ∧ InRange t ∧
      (∃ q, price t = .ok q ∧ q ≤ ⟨false, 99999999999, 12, by decide, by decide⟩) ∧
      ∀ u, InRange u → t < u →
        ∃ q, price u = .ok q ∧ ⟨false, 99999999999, 12, by decide, by decide⟩ < q) ∧
    ofPrice ⟨false, 9, 13, by decide, by decide⟩
      = .error (.ofDomain (.priceOutOfRange ⟨false, 9, 13, by decide, by decide⟩)) ∧
    ∃ p, price (-9000001) = .ok p ∧ ofPrice p = .ok (-9000001) := by
  refine ⟨ofPrice_floor_inverse.1 _ ?_ ?_, ofPrice_floor_inverse.2.1 _ ?_,
    ofPrice_floor_inverse.2.2 _ (by decide)⟩
  · norm_num [value, coefficient, tenTo]
  · norm_num [value, coefficient, tenTo]
  · norm_num [value, coefficient, tenTo]

end CrossBook.Tick
