import CrossBook.Proofs.Failure

/-!
# Magnitudes of decimals

A whole number that bounds an exact result bounds what it is rounded to, however large the numbers
are. Arithmetic with an exact result in range has a result.

## Main results

* `Decimal.RoundsTo.abs_value_le` — whole bounds survive rounding
* `Decimal.exists_minus` — amounts that are not negative can be subtracted from each other
* `Decimal.abs_minus_le`, `Decimal.abs_times_le` — bounds of results
* `Decimal.failsOnly_plus`, `Decimal.failsOnly_minus`, `Decimal.failsOnly_times` — arithmetic in
  range does not abort
-/

namespace CrossBook.Decimal

variable {a b c d : Decimal} {x y : ℚ}

theorem abs_value_le_maxCoefficient (d : Decimal) : |d.value| ≤ maxCoefficient := by
  have power : (1 : ℚ) ≤ tenTo d.scale := by exact_mod_cast tenTo_pos d.scale
  rw [value, abs_div, abs_of_pos (tenTo_cast_pos _), div_le_iff₀ (tenTo_cast_pos _),
    ← Int.cast_abs, Int.abs_eq_natAbs, Int.cast_natCast]
  have fits : (d.coefficient.natAbs : ℚ) ≤ maxCoefficient := by
    exact_mod_cast d.natAbs_coefficient_le
  exact fits.trans (le_mul_of_one_le_right (Nat.cast_nonneg _) power)

/-- A whole number that bounds the magnitude of a number bounds what that is rounded to. -/
theorem RoundsTo.abs_value_le (h : RoundsTo x d) {n : ℕ} (small : |x| ≤ n) : |d.value| ≤ n := by
  rcases lt_or_ge maxCoefficient n with large | fits
  · exact d.abs_value_le_maxCoefficient.trans (by exact_mod_cast large.le)
  · -- the bound and its negative are decimals, and rounding does not pass them
    obtain ⟨upper, found⟩ := exists_ofParts? (c := n) (s := 0) (by simpa using fits) (by decide)
    obtain ⟨lower, found'⟩ := exists_ofParts? (c := -n) (s := 0) (by simpa using fits) (by decide)
    have upper_value : upper.value = n := by simpa using value_of_ofParts? found
    have lower_value : lower.value = -n := by simpa using value_of_ofParts? found'
    obtain ⟨below, above⟩ := abs_le.mp small
    refine abs_le.mpr ⟨?_, ?_⟩
    · rw [← lower_value] at below ⊢
      exact h.ge below
    · rw [← upper_value] at above ⊢
      exact h.le above

theorem abs_trunc_le (d : Decimal) : |d.trunc.value| ≤ |d.value| := by
  have power := tenTo_cast_pos d.scale
  rw [trunc_value, value, abs_div, abs_of_pos power, ← Int.cast_abs, ← Int.cast_abs,
    Int.abs_eq_natAbs, Int.abs_eq_natAbs, Int.natAbs_tdiv, Int.natAbs_natCast, le_div_iff₀ power]
  exact_mod_cast Nat.div_mul_le_self _ _

/-- Amounts that are not negative can be subtracted from each other. -/
theorem exists_minus (ha : 0 ≤ a.value) (hb : 0 ≤ b.value) : ∃ c, a.sub? b = some c := by
  refine exists_sub? (abs_le.mpr ⟨?_, ?_⟩)
  · linarith [b.value_le_maxCoefficient]
  · linarith [a.value_le_maxCoefficient]

/-! ### Bounds of results -/

section Bounds

variable {m n : ℕ}

theorem abs_mul?_le (ha : |a.value| ≤ m) (hb : |b.value| ≤ n) (h : a.mul? b = some d) :
    |d.value| ≤ (m * n : ℕ) := by
  refine (roundsTo_of_mul? h).abs_value_le ?_
  rw [abs_mul, Nat.cast_mul]
  exact mul_le_mul ha hb (abs_nonneg _) (Nat.cast_nonneg _)

theorem abs_minus_le (ha : |a.value| ≤ m) (hb : |b.value| ≤ n) (h : a.minus b = .ok d) :
    |d.value| ≤ (m + n : ℕ) := by
  refine (roundsTo_of_minus h).abs_value_le ?_
  rw [Nat.cast_add]
  exact (abs_sub _ _).trans (add_le_add ha hb)

theorem abs_times_le (ha : |a.value| ≤ m) (hb : |b.value| ≤ n) (h : a.times b = .ok d) :
    |d.value| ≤ (m * n : ℕ) :=
  abs_mul?_le ha hb (orAbort_eq_ok.mp h)

end Bounds

/-! ### Arithmetic in range -/

section InRange

variable {P : Failure → Prop}

theorem failsOnly_plus (h : P (.abort .addition) ∨
    ∃ m n : ℕ, |a.value| ≤ m ∧ |b.value| ≤ n ∧ m + n ≤ maxCoefficient) :
    FailsOnly P (a.plus b) := by
  refine failsOnly_orAbort (h.imp_right fun ⟨m, n, ha, hb, fits⟩ => exists_add? ?_)
  exact ((abs_add_le _ _).trans (add_le_add ha hb)).trans (by exact_mod_cast fits)

theorem failsOnly_minus (h : P (.abort .subtraction) ∨
    ∃ m n : ℕ, |a.value| ≤ m ∧ |b.value| ≤ n ∧ m + n ≤ maxCoefficient) :
    FailsOnly P (a.minus b) := by
  refine failsOnly_orAbort (h.imp_right fun ⟨m, n, ha, hb, fits⟩ => exists_sub? ?_)
  exact ((abs_sub _ _).trans (add_le_add ha hb)).trans (by exact_mod_cast fits)

theorem failsOnly_times (h : P (.abort .multiplication) ∨
    ∃ m n : ℕ, |a.value| ≤ m ∧ |b.value| ≤ n ∧ m * n ≤ maxCoefficient) :
    FailsOnly P (a.times b) := by
  refine failsOnly_orAbort (h.imp_right fun ⟨m, n, ha, hb, fits⟩ => exists_mul? ?_)
  rw [abs_mul]
  exact (mul_le_mul ha hb (abs_nonneg _) (Nat.cast_nonneg _)).trans (by exact_mod_cast fits)

end InRange

end CrossBook.Decimal
