import CrossBook.Proofs.Decimal.Magnitude
import CrossBook.Proofs.Tick

/-!
# Failures of conversions

Moving the point of an amount reports an error where the result is no decimal. Besides that only the
words overflow that count decimals: a number of decimals may be the lowest exponent, which has no
counterpart, and the decimals of a pair may be too far apart.

## Main definitions

* `Units.GapFits` — the decimals of a pair are not too far apart
* `Units.GapFailure` — the failures where they are

## Main results

* `Amount.failsOnly_toHuman`, `Amount.abs_toHuman_le` — native units in human units
* `Units.failsOnly_toHumanPrice`, `Units.failsOnly_toChainPrice` — failures of prices
-/

namespace CrossBook

variable {P : Failure → Prop}

namespace Amount

variable {v : Decimal} {e : Int} {decimals : Nat}

theorem failsOnly_negated (h : P (.abort .wordNegation) ∨ e ≠ lowestExponent) :
    FailsOnly P (negated e) := by
  unfold negated
  split_ifs with lowest
  · exact failsOnly_error_iff.mpr (h.resolve_right fun other => other lowest)
  · exact failsOnly_ok _

theorem failsOnly_shift (overflow : P shiftOverflow)
    (h : P (.abort .wordNegation) ∨ e ≠ lowestExponent) : FailsOnly P (shift v e) := by
  unfold shift
  split_ifs
  · exact failsOnly_orError overflow
  · exact failsOnly_bind.mpr ⟨failsOnly_negated h, fun _ _ => failsOnly_orError overflow⟩

/-- A number of decimals is read as a word with a sign. -/
theorem exponentOfDecimals_lt (decimals : Nat) : exponentOfDecimals decimals < twoTo 31 :=
  Int.bmod_lt (twoTo_pos 32)

theorem failsOnly_toHuman (overflow : P shiftOverflow)
    (h : P (.abort .wordNegation) ∨ exponentOfDecimals decimals ≠ lowestExponent) :
    FailsOnly P (toHuman v decimals) := by
  refine failsOnly_bind.mpr ⟨failsOnly_negated h, fun e flipped => failsOnly_shift overflow ?_⟩
  -- the exponent with the other sign is never the lowest one
  refine .inr ?_
  rw [negated_eq_ok flipped, lowestExponent]
  have := exponentOfDecimals_lt decimals
  omega

/-- There are no more human units than native units, unless the decimals are read as a negative
exponent. -/
theorem abs_toHuman_le {r : Decimal} {n : ℕ} (nonneg : 0 ≤ exponentOfDecimals decimals)
    (bound : |v.value| ≤ n) (h : toHuman v decimals = .ok r) : |r.value| ≤ n := by
  obtain ⟨e, flipped, h⟩ := bind_eq_ok.mp h
  rw [negated_eq_ok flipped] at h
  refine (roundsTo_of_shift h).abs_value_le ?_
  have power : (10 : ℚ) ^ (-exponentOfDecimals decimals) ≤ 1 :=
    zpow_le_one_of_nonpos₀ (by norm_num) (neg_nonpos.mpr nonneg)
  rw [abs_mul, abs_of_pos (by positivity : (0 : ℚ) < 10 ^ (-exponentOfDecimals decimals))]
  exact (mul_le_of_le_one_right (abs_nonneg _) power).trans bound

end Amount

namespace Units

variable {u : Units} {p : Decimal}

/-- The power of ten between chain prices and human prices is an exponent, with either sign. -/
def GapFits (u : Units) : Prop := Amount.lowestExponent < u.gap ∧ u.gap < twoTo 31

instance (u : Units) : Decidable u.GapFits := inferInstanceAs (Decidable (_ ∧ _))

/-- A failure of counting decimals, where the decimals of the pair are too far apart. -/
def GapFailure (u : Units) (f : Failure) : Prop :=
  ¬ u.GapFits ∧ (f = .abort .wordSubtraction ∨ f = .abort .wordNegation)

theorem gapFailure_or_gapFits (h : ∀ f, u.GapFailure f → P f) :
    P (.abort .wordSubtraction) ∧ P (.abort .wordNegation) ∨ u.GapFits := by
  by_cases fits : u.GapFits
  · exact .inr fits
  · exact .inl ⟨h _ ⟨fits, .inl rfl⟩, h _ ⟨fits, .inr rfl⟩⟩

theorem failsOnly_exponent (h : P (.abort .wordSubtraction) ∨ u.GapFits) :
    FailsOnly P u.exponent := by
  unfold exponent
  dsimp only
  split_ifs with fits
  · exact failsOnly_ok _
  · exact failsOnly_error_iff.mpr (h.resolve_right fun gap => fits ⟨gap.1.le, gap.2⟩)

theorem failsOnly_toHumanPrice (overflow : P Amount.shiftOverflow)
    (h : P (.abort .wordSubtraction) ∧ P (.abort .wordNegation) ∨ u.GapFits) :
    FailsOnly P (u.toHumanPrice p) := by
  refine failsOnly_bind.mpr ⟨failsOnly_exponent (h.imp_left And.left), fun e found =>
    Amount.failsOnly_shift overflow (h.imp And.right fun gap => ?_)⟩
  rw [exponent_eq_ok found]
  exact gap.1.ne'

theorem failsOnly_toChainPrice (overflow : P Amount.shiftOverflow)
    (h : P (.abort .wordSubtraction) ∧ P (.abort .wordNegation) ∨ u.GapFits) :
    FailsOnly P (u.toChainPrice p) := by
  refine failsOnly_bind.mpr ⟨failsOnly_exponent (h.imp_left And.left), fun e found =>
    failsOnly_bind.mpr ⟨Amount.failsOnly_negated (h.imp And.right fun gap => ?_),
      fun e' flipped => Amount.failsOnly_shift overflow (h.imp And.right fun gap => ?_)⟩⟩
  · rw [exponent_eq_ok found]
    exact gap.1.ne'
  · rw [Amount.negated_eq_ok flipped, exponent_eq_ok found, Amount.lowestExponent]
    have := gap.2
    omega

end Units

end CrossBook
