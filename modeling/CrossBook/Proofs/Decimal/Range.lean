import CrossBook.Proofs.Decimal.Magnitude

/-!
# What can be rounded

The numbers that can be rounded are an interval around zero: an operation whose exact result lies
between the results of two that succeed succeeds as well. Numbers small enough for all places are
rounded at the last of them.

## Main definitions

* `Decimal.Roundable` — a number that some decimal is nearest to

## Main results

* `Decimal.Roundable.between` — what lies between two numbers that can be rounded can be rounded
* `Decimal.exists_add?_iff`, `exists_mul?_iff` — operations succeed whose results can be rounded
* `Decimal.RoundsTo.abs_sub_le` — small numbers are off by half a unit of the last place at most
-/

namespace CrossBook.Decimal

variable {a b c d : Decimal} {x y z : ℚ}

/-! ### Magnitudes -/

/-- Magnitudes small enough for every place are rounded at the last one. -/
theorem roundedParts?_last {n d m s : Nat} (positive : 0 < d)
    (small : n * tenTo maxScale ≤ maxCoefficient * d) (h : roundedParts? n d = some (m, s)) :
    s = maxScale := by
  have fits : n * tenTo maxScale / d ≤ maxCoefficient :=
    Nat.div_le_of_le_mul (by rwa [Nat.mul_comm d])
  obtain ⟨t, last, le⟩ := exists_fittingScale? fits le_rfl
  obtain rfl : t = maxScale := le_antisymm (fittingScale?_eq_some last).1 le
  obtain ⟨u, found, ⟨-, rfl, -⟩ | ⟨past, rfl, -⟩⟩ := roundedParts?_eq_some h
  · exact Option.some.inj (found.symm.trans last)
  · -- a magnitude that is at most the largest coefficient does not round past it
    rw [← Option.some.inj (found.symm.trans last)] at small
    exact absurd (divHalfEven_le positive small) (not_le.mpr past)

/-- Such magnitudes are off by half a unit of the last place at most. -/
theorem roundedParts?_abs_sub_le {n d m s : Nat} (positive : 0 < d)
    (small : n * tenTo maxScale ≤ maxCoefficient * d) (h : roundedParts? n d = some (m, s)) :
    |(m : ℚ) / tenTo s - n / d| ≤ 1 / (2 * 10 ^ 28) := by
  obtain rfl := roundedParts?_last positive small h
  obtain ⟨above, below, -⟩ := roundedParts?_near positive h
  have unit : (tenTo maxScale : ℚ) = 10 ^ 28 := tenTo_cast maxScale
  have d_pos : (0 : ℚ) < d := by exact_mod_cast positive
  have above : 2 * (m * d : ℚ) ≤ 2 * (n * 10 ^ 28) + d := by
    rw [← unit]
    exact_mod_cast above
  have below : 2 * (n * 10 ^ 28 : ℚ) ≤ 2 * (m * d) + d := by
    rw [← unit]
    exact_mod_cast below
  have common : (m : ℚ) / 10 ^ 28 - n / d = (m * d - 10 ^ 28 * n) / (10 ^ 28 * d) :=
    div_sub_div _ _ (by positivity) d_pos.ne'
  have half : (1 : ℚ) / (2 * 10 ^ 28) = d / 2 / (10 ^ 28 * d) := by
    field_simp
  rw [unit, common, half, abs_div, abs_of_pos (by positivity : (0 : ℚ) < 10 ^ 28 * d)]
  refine div_le_div_of_nonneg_right (abs_le.mpr ⟨?_, ?_⟩) (by positivity)
  · linarith
  · linarith

/-! ### Numbers -/

/-- Some decimal is nearest to the number. -/
def Roundable (x : ℚ) : Prop := ∃ d, RoundsTo x d

/-- A quotient no larger than a number that can be rounded can be rounded. -/
theorem Roundable.exists_ofRatio? {num : Int} {den : Nat} (h : Roundable x) (positive : 0 < den)
    (le : |(num : ℚ) / den| ≤ |x|) : ∃ d, ofRatio? num den = some d := by
  obtain ⟨d, num', den', positive', rfl, found⟩ := h
  rw [exists_ofRatio?_iff positive]
  have fits := (exists_ofRatio?_iff positive').mp ⟨d, found⟩
  refine (divHalfEven_mono positive positive' ?_).trans fits
  have den_pos : (0 : ℚ) < den := by exact_mod_cast positive
  have den_pos' : (0 : ℚ) < den' := by exact_mod_cast positive'
  rw [abs_div, abs_div, abs_of_pos den_pos, abs_of_pos den_pos',
    div_le_div_iff₀ den_pos den_pos', ← Int.cast_abs, ← Int.cast_abs, Int.abs_eq_natAbs,
    Int.abs_eq_natAbs] at le
  exact_mod_cast le

theorem Roundable.of_abs_le (h : Roundable x) (le : |y| ≤ |x|) : Roundable y := by
  have quotient : (y.num : ℚ) / y.den = y := y.num_div_den
  obtain ⟨d, found⟩ : ∃ d, ofRatio? y.num y.den = some d :=
    h.exists_ofRatio? y.pos (by rwa [quotient])
  exact ⟨d, _, _, y.pos, quotient.symm, found⟩

/-- What lies between two numbers that can be rounded can be rounded. -/
theorem Roundable.between (hx : Roundable x) (hz : Roundable z) (above : x ≤ y) (below : y ≤ z) :
    Roundable y := by
  rcases le_max_iff.mp (abs_le_max_abs_abs above below) with near | near
  · exact hx.of_abs_le near
  · exact hz.of_abs_le near

theorem roundable_value (d : Decimal) : Roundable d.value := by
  obtain ⟨e, rounds, -⟩ := exists_roundsTo_value d
  exact ⟨e, rounds⟩

theorem exists_add?_iff : (∃ c, a.add? b = some c) ↔ Roundable (a.value + b.value) := by
  constructor
  · rintro ⟨c, sum⟩
    exact ⟨c, roundsTo_of_add? sum⟩
  · intro h
    refine h.exists_ofRatio? (tenTo_pos maxScale) (le_of_eq ?_)
    rw [value_eq_units_div a, value_eq_units_div b, ← add_div, Int.cast_add, unitsOfOne]

theorem exists_mul?_iff : (∃ c, a.mul? b = some c) ↔ Roundable (a.value * b.value) := by
  constructor
  · rintro ⟨c, product⟩
    exact ⟨c, roundsTo_of_mul? product⟩
  · intro h
    refine h.exists_ofRatio? (Nat.mul_pos (tenTo_pos maxScale) (tenTo_pos maxScale)) (le_of_eq ?_)
    rw [value_eq_units_div a, value_eq_units_div b, div_mul_div_comm, Int.cast_mul, Nat.cast_mul,
      unitsOfOne]

/-- A number with all its places in range is off by half a unit of the last place at most. -/
theorem RoundsTo.abs_sub_le (h : RoundsTo x d) (small : |x| * 10 ^ 28 ≤ maxCoefficient) :
    |d.value - x| ≤ 1 / (2 * 10 ^ 28) := by
  obtain ⟨num, den, positive, rfl, found⟩ := h
  obtain ⟨m, s, parts, value_d⟩ := ofRatio?_eq_some found
  have den_pos : (0 : ℚ) < den := by exact_mod_cast positive
  have fits : num.natAbs * tenTo maxScale ≤ maxCoefficient * den := by
    have unit : (tenTo maxScale : ℚ) = 10 ^ 28 := tenTo_cast maxScale
    rw [abs_div, abs_of_pos den_pos, ← Int.cast_abs, Int.abs_eq_natAbs, Int.cast_natCast,
      div_mul_eq_mul_div, div_le_iff₀ den_pos, ← unit] at small
    exact_mod_cast small
  have near := roundedParts?_abs_sub_le positive fits parts
  -- the number and what it is rounded to have one sign
  rw [value_d]
  split_ifs with negative
  · have magnitude : (num : ℚ) = -(num.natAbs : ℚ) := by
      rw [← Int.cast_natCast, Int.ofNat_natAbs_of_nonpos negative.le, Int.cast_neg, neg_neg]
    rwa [magnitude, neg_div, neg_div, ← neg_sub', abs_neg]
  · have magnitude : (num : ℚ) = num.natAbs := by
      rw [← Int.cast_natCast, Int.natAbs_of_nonneg (not_lt.mp negative)]
    rwa [magnitude]

end CrossBook.Decimal
