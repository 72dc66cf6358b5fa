import CrossBook.Amount
import CrossBook.Proofs.Failure

/-!
# Amounts in other units

Moving the point rounds the product with a power of ten. To the right nothing is lost, since the
places a decimal has are enough for the product.

## Main results

* `Amount.roundsTo_of_shift` — a shifted amount is the rounded product
* `Amount.value_of_roundsTo` — exactly the product when no place is moved past the last one
* `Amount.value_of_shift` — exactly the product when the point moves to the right
* `Amount.toHuman_mono` — human amounts keep the order of native units
* `Amount.toHuman_le` — a human amount that covers native units covers them after the conversion
* `Amount.truncTo_le_toHuman` — native units that reach a human amount reach what is left of it in
  whole units
-/

namespace CrossBook.Amount

open Decimal

variable {v r : Decimal} {e : Int} {decimals : Nat}

theorem negated_eq_ok {e' : Int} (h : negated e = .ok e') : e' = -e := by
  unfold negated at h
  split_ifs at h
  exact (Except.ok.inj h).symm

/-- A shift is one product with a power of ten, or one quotient by it. -/
theorem shift_eq_ok (h : shift v e = .ok r) :
    0 ≤ e ∧ (∃ p, powerOfTen? e = some p ∧ v.mul? p = some r) ∨
      e < 0 ∧ ∃ p, powerOfTen? (-e) = some p ∧ v.div? p = some r := by
  unfold shift at h
  split_ifs at h with nonneg
  · exact .inl ⟨nonneg, Option.bind_eq_some_iff.mp (orError_eq_ok.mp h)⟩
  · obtain ⟨e', flipped, h⟩ := bind_eq_ok.mp h
    obtain rfl := negated_eq_ok flipped
    exact .inr ⟨not_le.mp nonneg, Option.bind_eq_some_iff.mp (orError_eq_ok.mp h)⟩

theorem roundsTo_of_shift (h : shift v e = .ok r) : RoundsTo (v.value * 10 ^ e) r := by
  obtain ⟨-, p, power, product⟩ | ⟨-, p, power, quotient⟩ := shift_eq_ok h
  · rw [← value_of_powerOfTen? power]
    exact roundsTo_of_mul? product
  · have := roundsTo_of_div? quotient
    rwa [value_of_powerOfTen? power, zpow_neg, div_inv_eq_mul] at this

theorem value_eq_mul_zpow (d : Decimal) : d.value = d.coefficient * 10 ^ (-(d.scale : ℤ)) := by
  rw [value, tenTo_cast, zpow_neg, zpow_natCast, div_eq_mul_inv]

theorem value_mul_zpow (d : Decimal) (e : Int) :
    d.value * 10 ^ e = d.coefficient * 10 ^ (e - d.scale) := by
  rw [value_eq_mul_zpow, mul_assoc, ← zpow_add₀ (by norm_num), neg_add_eq_sub]

/-- Moving the point is exact when no place is moved past the last one. -/
theorem value_of_roundsTo (h : RoundsTo (v.value * 10 ^ e) r)
    (places : (v.scale : ℤ) ≤ e + maxScale) : r.value = v.value * 10 ^ e := by
  rw [value_mul_zpow] at h ⊢
  exact h.value_eq_scientific v.natAbs_coefficient_le (by omega)

theorem scale_le_add (v : Decimal) (nonneg : 0 ≤ e) : (v.scale : ℤ) ≤ e + maxScale := by
  have := v.scale_le
  unfold maxScale
  omega

/-- A shift to the right is exact. -/
theorem value_of_shift (h : shift v e = .ok r) (nonneg : 0 ≤ e) : r.value = v.value * 10 ^ e :=
  value_of_roundsTo (roundsTo_of_shift h) (scale_le_add v nonneg)

theorem exponentOfDecimals_of_le (h : decimals ≤ 28) : exponentOfDecimals decimals = decimals := by
  have words : twoTo 32 = 4294967296 := by decide
  rw [exponentOfDecimals, words]
  exact Int.bmod_eq_of_le (by omega) (by omega)

/-- Whole native units are the whole part of the human amount in native units. -/
theorem toNative_eq_ok (h : toNative v decimals = .ok r) (le : decimals ≤ 28) :
    ∃ native : Decimal, r = native.trunc ∧ native.value = v.value * 10 ^ decimals := by
  obtain ⟨native, shifted, h⟩ := bind_eq_ok.mp h
  rw [exponentOfDecimals_of_le le] at shifted
  refine ⟨native, (Except.ok.inj h).symm, ?_⟩
  rw [value_of_shift shifted (Int.natCast_nonneg _), zpow_natCast]

theorem roundsTo_of_toHuman (h : toHuman v decimals = .ok r) (le : decimals ≤ 28) :
    RoundsTo (v.value / 10 ^ decimals) r := by
  obtain ⟨e, flipped, h⟩ := bind_eq_ok.mp h
  rw [exponentOfDecimals_of_le le] at flipped
  obtain rfl := negated_eq_ok flipped
  have := roundsTo_of_shift h
  rwa [zpow_neg, zpow_natCast, ← div_eq_mul_inv] at this

theorem toHuman_nonneg (h : toHuman v decimals = .ok r) (nonneg : 0 ≤ v.value) : 0 ≤ r.value := by
  obtain ⟨e, -, h⟩ := bind_eq_ok.mp h
  exact (roundsTo_of_shift h).nonneg (mul_nonneg nonneg (zpow_nonneg (by norm_num) _))

/-- Human amounts keep the order of native units. -/
theorem toHuman_mono {v' r' : Decimal} (h : toHuman v decimals = .ok r)
    (h' : toHuman v' decimals = .ok r') (le : v.value ≤ v'.value) : r.value ≤ r'.value := by
  obtain ⟨e, flipped, h⟩ := bind_eq_ok.mp h
  obtain ⟨e', flipped', h'⟩ := bind_eq_ok.mp h'
  obtain rfl := Except.ok.inj (flipped.symm.trans flipped')
  apply (roundsTo_of_shift h).mono (roundsTo_of_shift h')
  exact mul_le_mul_of_nonneg_right le (zpow_nonneg (by norm_num) e)

/-- The human amount of native units that a human amount covers is not above it. -/
theorem toHuman_le {human available : Decimal} (native : toNative human decimals = .ok available)
    (back : toHuman v decimals = .ok r) (le : decimals ≤ 28) (positive : 0 < v.value)
    (covered : v.value ≤ available.value) : r.value ≤ human.value := by
  obtain ⟨exact, rfl, value_exact⟩ := toNative_eq_ok native le
  -- a balance below zero has a whole part that covers nothing
  have nonneg : 0 ≤ exact.value := by
    by_contra negative
    have := trunc_nonpos (not_le.mp negative).le
    linarith
  refine (roundsTo_of_toHuman back le).le ?_
  rw [div_le_iff₀ (by positivity), ← value_exact]
  exact covered.trans (trunc_le nonneg)

/-- Native units that reach those of a human amount are worth that amount, less its places beyond
the smallest unit. -/
theorem truncTo_le_toHuman {human least : Decimal} (native : toNative human decimals = .ok least)
    (back : toHuman v decimals = .ok r) (le : decimals ≤ 28) (nonneg : 0 ≤ v.value)
    (reached : least.value ≤ v.value) : (human.truncTo decimals).value ≤ r.value := by
  obtain ⟨exact, rfl, value_exact⟩ := toNative_eq_ok native le
  have rounds := roundsTo_of_toHuman back le
  rcases le_or_gt 0 human.value with some_human | negative
  · refine rounds.ge ?_
    rw [value_truncTo_of_nonneg some_human, ← value_exact,
      ← trunc_value_of_nonneg (by rw [value_exact]; positivity)]
    gcongr
  · exact (truncTo_nonpos negative.le _).trans (rounds.nonneg (by positivity))

end CrossBook.Amount
