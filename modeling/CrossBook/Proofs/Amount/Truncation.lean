import CrossBook.Proofs.Conversions
import CrossBook.Proofs.Decimal.Range

/-!
# Human amounts and native units, there and back

A point that moves to the right leaves a product that is a decimal or too large for one, so nothing
is rounded before the fraction is dropped. A whole number has a place for every decimal of an asset,
so its human amount is exact.

## Main results

* `Amount.exists_shift`, `Amount.shift_of_large` — when the point can be moved
* `Amount.toNative_of_small`, `Amount.toNative_of_large` — native units, or none because they are
  too many
* `Amount.exists_toHuman` — the human amount of whole native units
* `Amount.native_human_inverse` — conversions in full
-/

namespace CrossBook

namespace Amount

open Decimal

variable {v r : Decimal} {e : Int} {decimals : Nat}

/-- The point can be moved where a decimal can hold what comes out. -/
theorem exists_shift (range : e.natAbs ≤ maxScale) (small : |v.value * 10 ^ e| ≤ maxCoefficient) :
    ∃ r, shift v e = .ok r := by
  unfold shift
  split_ifs with nonneg
  · obtain ⟨p, power⟩ := exists_powerOfTen?_iff.mpr range
    rw [← value_of_powerOfTen? power] at small
    obtain ⟨r, product⟩ := exists_mul? small
    exact ⟨r, orError_eq_ok.mpr (Option.bind_eq_some_iff.mpr ⟨p, power, product⟩)⟩
  · have other : e ≠ lowestExponent := by
      have lowest : lowestExponent = -2147483648 := by decide
      unfold maxScale at range
      omega
    obtain ⟨p, power⟩ := exists_powerOfTen?_iff.mpr (show (-e).natAbs ≤ maxScale by omega)
    have value_p := value_of_powerOfTen? power
    obtain ⟨r, quotient⟩ : ∃ r, v.div? p = some r := by
      refine exists_div? (by rw [value_p]; positivity) ?_
      rwa [value_p, zpow_neg, div_inv_eq_mul]
    refine ⟨r, ?_⟩
    rw [negated, if_neg other, ok_bind]
    exact orError_eq_ok.mpr (Option.bind_eq_some_iff.mpr ⟨p, power, quotient⟩)

/-- To the right the point can only be moved there. -/
theorem shift_of_large (nonneg : 0 ≤ e) (large : maxCoefficient < |v.value * 10 ^ e|) :
    shift v e = .error shiftOverflow := by
  have other : e ≠ lowestExponent := by
    have lowest : lowestExponent = -2147483648 := by decide
    omega
  cases shifted : shift v e with
  | error f =>
    exact congrArg _ (failsOnly_shift (P := (· = shiftOverflow)) rfl (.inr other) f shifted)
  | ok r =>
    rw [← value_of_shift shifted nonneg] at large
    exact absurd r.abs_value_le_maxCoefficient (not_le.mpr large)

/-! ### Native units -/

/-- Native units that a decimal can hold are the whole part of the exact product. -/
theorem toNative_of_small (le : decimals ≤ 28)
    (small : |v.value * 10 ^ decimals| ≤ maxCoefficient) :
    ∃ n, toNative v decimals = .ok n ∧ n.value = towardZero (v.value * 10 ^ decimals) := by
  obtain ⟨native, shifted⟩ : ∃ r, shift v decimals = .ok r :=
    exists_shift (by simpa [maxScale] using le) (by rwa [zpow_natCast])
  refine ⟨native.trunc, ?_, ?_⟩
  · rw [toNative, exponentOfDecimals_of_le le, shifted, ok_bind]
  · rw [trunc_value_eq, value_of_shift shifted (Int.natCast_nonneg _), zpow_natCast]

/-- More native units than a decimal can hold are an error. -/
theorem toNative_of_large (le : decimals ≤ 28)
    (large : maxCoefficient < |v.value * 10 ^ decimals|) :
    toNative v decimals = .error shiftOverflow := by
  rw [toNative, exponentOfDecimals_of_le le,
    shift_of_large (Int.natCast_nonneg _) (by rwa [zpow_natCast]), error_bind]

theorem value_of_toNative (le : decimals ≤ 28) (h : toNative v decimals = .ok r) :
    r.value = towardZero (v.value * 10 ^ decimals) := by
  obtain ⟨native, rfl, value_native⟩ := toNative_eq_ok h le
  rw [trunc_value_eq, value_native]

theorem isWhole_of_toNative (le : decimals ≤ 28) (h : toNative v decimals = .ok r) : r.IsWhole :=
  ⟨_, value_of_toNative le h⟩

/-! ### Human amounts -/

/-- A whole number of native units has an exact human amount. -/
theorem exists_toHuman (le : decimals ≤ 28) (whole : v.IsWhole) :
    ∃ r, toHuman v decimals = .ok r ∧ r.value = v.value / 10 ^ decimals := by
  have power : v.value / 10 ^ decimals = v.value * 10 ^ (-(decimals : ℤ)) := by
    rw [zpow_neg, zpow_natCast, div_eq_mul_inv]
  have small : |v.value * 10 ^ (-(decimals : ℤ))| ≤ maxCoefficient := by
    rw [abs_mul, abs_of_pos (by positivity : (0 : ℚ) < 10 ^ (-(decimals : ℤ)))]
    refine (mul_le_of_le_one_right (abs_nonneg _) ?_).trans v.abs_value_le_maxCoefficient
    exact zpow_le_one_of_nonpos₀ (by norm_num) (by simp)
  obtain ⟨r, shifted⟩ := exists_shift (by simpa [maxScale] using le) small
  have other : (decimals : ℤ) ≠ lowestExponent := by
    have lowest : lowestExponent = -2147483648 := by decide
    omega
  refine ⟨r, ?_, ?_⟩
  · rw [toHuman, exponentOfDecimals_of_le le, negated, if_neg other, ok_bind, shifted]
  · -- a whole number is its own coefficient, so that only the places of the asset are needed
    obtain ⟨n, value_v⟩ := whole
    have fits : n.natAbs ≤ maxCoefficient := by
      have := v.abs_value_le_maxCoefficient
      rw [value_v, ← Int.cast_abs, Int.abs_eq_natAbs] at this
      exact_mod_cast this
    have rounds := roundsTo_of_shift shifted
    rw [value_v] at rounds
    rw [power, value_v]
    exact rounds.value_eq_scientific fits (by unfold maxScale; omega)

/-- Converting to native units fails where there are more of them than a decimal can hold, and else
drops the fraction of the exact product and nothing more. Whole native units have an exact human
amount, whose native units they are. What comes back of a human amount is that amount without the
places past the decimals of the asset. -/
theorem native_human_inverse (le : decimals ≤ 28) :
    (∀ h : Decimal,
      maxCoefficient < |h.value * 10 ^ decimals| ∧
          toNative h decimals
            = .error (.ofDomain (.precisionOverflow "shifting decimal places")) ∨
        ∃ n, toNative h decimals = .ok n ∧ n.value = towardZero (h.value * 10 ^ decimals)) ∧
    (∀ n : Decimal, n.IsWhole →
      ∃ h, toHuman n decimals = .ok h ∧ h.value = n.value / 10 ^ decimals ∧
        ∃ m, toNative h decimals = .ok m ∧ m.SameValue n) ∧
    ∀ h n : Decimal, toNative h decimals = .ok n →
      ∃ r, toHuman n decimals = .ok r ∧ r.SameValue (h.truncTo decimals) ∧
        r.value = towardZero (h.value * 10 ^ decimals) / 10 ^ decimals ∧ (zero ≤ h → r ≤ h) := by
  have power : (10 : ℚ) ^ decimals ≠ 0 := by positivity
  refine ⟨fun h => ?_, fun n whole => ?_, fun h n native => ?_⟩
  · rcases le_or_gt |h.value * 10 ^ decimals| maxCoefficient with small | large
    · exact .inr (toNative_of_small le small)
    · exact .inl ⟨large, toNative_of_large le large⟩
  · obtain ⟨h, human, value_h⟩ := exists_toHuman le whole
    have back : h.value * 10 ^ decimals = n.value := by rw [value_h, div_mul_cancel₀ _ power]
    obtain ⟨m, native, value_m⟩ := toNative_of_small le
      (by rw [back]; exact n.abs_value_le_maxCoefficient)
    refine ⟨h, human, value_h, m, native, ?_⟩
    obtain ⟨k, value_n⟩ := whole
    rw [sameValue_iff_value, value_m, back, value_n, towardZero_intCast]
  · obtain ⟨r, human, value_r⟩ := exists_toHuman le (isWhole_of_toNative le native)
    rw [value_of_toNative le native] at value_r
    have cut : r.value = (h.truncTo decimals).value := by rw [value_r, truncTo_value_eq]
    refine ⟨r, human, sameValue_iff_value.mpr cut, value_r, fun nonneg => ?_⟩
    rw [le_iff_value, value_zero] at nonneg
    rw [le_iff_value, cut]
    exact truncTo_le nonneg decimals

/-- An amount below zero with nine places. -/
def owed : Decimal := ⟨true, 123456789, 9, by decide, by decide⟩

/-- The largest decimal. -/
def largestAmount : Decimal := { zero with magnitude := maxCoefficient, magnitude_le := by decide }

/-- In eight decimals the last place is dropped, which is upwards below zero. The largest number has
too many native units of one decimal, and a human amount in twenty-eight. -/
theorem native_human_inverse_of_owed :
    (∃ n, toNative owed 8 = .ok n ∧ n.value = towardZero (owed.value * 10 ^ 8) ∧
      ∃ r, toHuman n 8 = .ok r ∧ r.SameValue ⟨true, 12345678, 8, by decide, by decide⟩) ∧
    toNative largestAmount 1
      = .error (.ofDomain (.precisionOverflow "shifting decimal places")) ∧
    ∃ h, toHuman largestAmount 28 = .ok h ∧
      ∃ m, toNative h 28 = .ok m ∧ m.SameValue largestAmount := by
  refine ⟨?_, ?_, ?_⟩
  · have fits : ¬ (maxCoefficient : ℚ) < |owed.value * 10 ^ 8| := by
      norm_num [owed, value, coefficient, tenTo, maxCoefficient]
    have inverse := @native_human_inverse 8 (by decide)
    obtain ⟨n, native, value_n⟩ := (inverse.1 owed).resolve_left fun large => fits large.1
    obtain ⟨r, human, cut, -⟩ := inverse.2.2 owed n native
    exact ⟨n, native, value_n, r, human, cut⟩
  · have inverse := @native_human_inverse 1 (by decide)
    have failed : (toNative largestAmount 1).toOption = none := by decide +kernel
    refine ((inverse.1 largestAmount).resolve_right ?_).2
    rintro ⟨n, native, -⟩
    rw [native] at failed
    cases failed
  · have inverse := @native_human_inverse 28 (by decide)
    obtain ⟨h, human, -, back⟩ := inverse.2.1 largestAmount (by decide)
    exact ⟨h, human, back⟩

end Amount

end CrossBook
