import CrossBook.Proofs.Amount
import CrossBook.Tick
import Mathlib.Algebra.Order.Field.Power
import Mathlib.Order.Monotone.Basic

/-!
# The grid of ticks

The price of a tick is a significand of seven digits times a power of ten, and grows with the tick.
Nothing is lost where it is computed, nor where its point moves at most nine places to the left.

## Main definitions

* `Tick.exactPrice` — the price of a tick as a number
* `Units.gap` — the power of ten between chain prices and human prices

## Main results

* `Tick.exactPrice_lt` — prices grow with ticks
* `Tick.value_of_price` — the computed price of a tick is exact
* `Units.value_of_toHumanPrice` — so is its human price for most pairs
-/

namespace CrossBook

open Decimal

namespace Tick

variable {t : Int} {p : Decimal}

/-- The price of a tick: the power of ten of its decade and as many steps as it is away. -/
def exactPrice (t : Int) : ℚ := 10 ^ decade t + steps t * 10 ^ stepExponent t

/-- The price of a tick in steps of its decade. -/
def significand (t : Int) : Int := steps t + if t < 0 then 10000000 else 1000000

theorem decade_of_nonneg (h : 0 ≤ t) : decade t = t / 9000000 :=
  Int.tdiv_eq_ediv_of_nonneg h

theorem decade_of_neg (h : t < 0) : decade t = -(-t / 9000000) := by
  rw [← Int.tdiv_eq_ediv_of_nonneg (by omega), Int.neg_tdiv, neg_neg, decade, perDecade]

theorem significand_pos (t : Int) : 0 < significand t := by
  unfold significand steps perDecade
  rcases lt_or_ge t 0 with negative | nonneg
  · rw [decade_of_neg negative, if_pos negative]
    omega
  · rw [decade_of_nonneg nonneg, if_neg (by omega)]
    omega

theorem significand_le (t : Int) : significand t ≤ 10000000 := by
  unfold significand steps perDecade
  rcases lt_or_ge t 0 with negative | nonneg
  · rw [decade_of_neg negative, if_pos negative]
    omega
  · rw [decade_of_nonneg nonneg, if_neg (by omega)]
    omega

theorem exactPrice_eq (t : Int) : exactPrice t = significand t * 10 ^ stepExponent t := by
  have power (k : ℕ) : ((10 ^ k : ℤ) : ℚ) * 10 ^ (decade t - k) = 10 ^ decade t := by
    rw [zpow_sub₀ (by norm_num), zpow_natCast]
    push_cast
    field_simp
  -- the power of ten of a decade is a million of its steps, or ten million below one
  unfold exactPrice significand stepExponent unitExponent
  split_ifs with negative
  · have := power 7
    rw [show -6 + decade t - 1 = decade t - (7 : ℕ) by push_cast; ring, ← this]
    push_cast
    ring
  · have := power 6
    rw [show -6 + decade t - 0 = decade t - (6 : ℕ) by push_cast; ring, ← this]
    push_cast
    ring

theorem exactPrice_pos (t : Int) : 0 < exactPrice t := by
  rw [exactPrice_eq]
  have : (0 : ℚ) < significand t := by exact_mod_cast significand_pos t
  positivity

/-- From one tick to the next the significand grows, or the decade does and the significand starts
over. -/
theorem significand_succ (t : Int) :
    stepExponent (t + 1) = stepExponent t ∧ significand t < significand (t + 1) ∨
      stepExponent (t + 1) = stepExponent t + 1 ∧ significand t < 10 * significand (t + 1) := by
  unfold stepExponent significand steps perDecade
  rcases lt_trichotomy (t + 1) 0 with negative | zero | positive
  · rw [decade_of_neg negative, decade_of_neg (by omega : t < 0), if_pos negative,
      if_pos (by omega : t < 0), if_pos negative, if_pos (by omega : t < 0)]
    omega
  · -- the last tick below one, where the decades change sides
    obtain rfl : t = -1 := by omega
    decide
  · rw [decade_of_nonneg positive.le, decade_of_nonneg (by omega : 0 ≤ t), if_neg (by omega),
      if_neg (by omega), if_neg (by omega), if_neg (by omega)]
    omega

theorem exactPrice_lt_succ (t : Int) : exactPrice t < exactPrice (t + 1) := by
  rw [exactPrice_eq, exactPrice_eq]
  have positive : (0 : ℚ) < 10 ^ stepExponent t := by positivity
  rcases significand_succ t with ⟨same, less⟩ | ⟨next, less⟩
  · rw [same]
    exact mul_lt_mul_of_pos_right (by exact_mod_cast less) positive
  · rw [next, zpow_add_one₀ (by norm_num), ← mul_assoc, mul_right_comm]
    refine mul_lt_mul_of_pos_right ?_ positive
    have : (significand t : ℚ) < 10 * significand (t + 1) := by exact_mod_cast less
    linarith

/-- Prices grow with ticks. -/
theorem exactPrice_lt {t t' : Int} (h : t < t') : exactPrice t < exactPrice t' :=
  strictMono_int_of_lt_succ exactPrice_lt_succ h

theorem exactPrice_le {t t' : Int} (h : t ≤ t') : exactPrice t ≤ exactPrice t' :=
  (strictMono_int_of_lt_succ exactPrice_lt_succ).monotone h

/-! ### Computed prices -/

theorem stepExponent_ge (h : InRange t) : -19 ≤ stepExponent t := by
  obtain ⟨low, high⟩ := h
  unfold lowest at low
  unfold stepExponent unitExponent
  rcases lt_or_ge t 0 with negative | nonneg
  · rw [decade_of_neg negative, if_pos negative]
    omega
  · rw [decade_of_nonneg nonneg, if_neg (by omega)]
    omega

/-- A number with the significand of a tick and at most twenty-eight places is kept. -/
theorem value_eq_significand {k : Int} {d : Decimal} (h : RoundsTo (significand t * 10 ^ k) d)
    (places : -28 ≤ k) : d.value = significand t * 10 ^ k := by
  refine h.value_eq_scientific ?_ places
  have positive := significand_pos t
  have small := significand_le t
  have large : 10000000 ≤ maxCoefficient := by decide
  omega

theorem inRange_of_price (h : price t = .ok p) : InRange t := by
  unfold price at h
  split_ifs at h with inRange
  · exact inRange
  · exact inRange

theorem value_of_offset {n k : Int} {count step offset : Decimal}
    (written : ofParts? n 0 = some count) (power : powerOfTen? k = some step)
    (product : count.mul? step = some offset) (small : n.natAbs ≤ maxCoefficient)
    (places : -28 ≤ k) : offset.value = n * 10 ^ k := by
  have rounds := roundsTo_of_mul? product
  rw [value_of_ofParts? written, value_of_powerOfTen? power, tenTo_zero, Nat.cast_one,
    div_one] at rounds
  exact rounds.value_eq_scientific small places

/-- The computed price of a tick is exact. -/
theorem value_of_price (h : price t = .ok p) : p.value = exactPrice t := by
  have inRange := inRange_of_price h
  have places := stepExponent_ge inRange
  rw [price, if_pos inRange] at h
  split_ifs at h with zero
  · obtain rfl := Except.ok.inj h
    subst zero
    rw [value_one, exactPrice_eq, show significand 0 = 1000000 by decide,
      show stepExponent 0 = -6 by decide]
    norm_num
  · obtain ⟨start, decadePower, h⟩ := Option.bind_eq_some_iff.mp (orError_eq_ok.mp h)
    obtain ⟨step, stepPower, h⟩ := Option.bind_eq_some_iff.mp h
    obtain ⟨count, written, h⟩ := Option.bind_eq_some_iff.mp h
    obtain ⟨offset, product, sum⟩ := Option.bind_eq_some_iff.mp h
    have small : (steps t).natAbs ≤ maxCoefficient := by
      have positive := significand_pos t
      have le := significand_le t
      have large : 20000000 ≤ maxCoefficient := by decide
      unfold significand at positive le
      split_ifs at positive le <;> omega
    -- the sum has the seven digits of the significand, so it is kept
    have rounds := roundsTo_of_add? sum
    rw [value_of_powerOfTen? decadePower,
      value_of_offset written stepPower product small (by omega), ← exactPrice,
      exactPrice_eq] at rounds
    rw [exactPrice_eq]
    exact value_eq_significand rounds (by omega)

theorem price_pos (h : price t = .ok p) : 0 < p.value := by
  rw [value_of_price h]
  exact exactPrice_pos t

end Tick

namespace Units

variable {u : Units} {p r : Decimal} {t : Int}

/-- The power of ten between chain prices and human prices. -/
def gap (u : Units) : Int := Amount.exponentOfDecimals u.base - Amount.exponentOfDecimals u.quote

theorem exponent_eq_ok {e : Int} (h : u.exponent = .ok e) : e = u.gap := by
  unfold exponent at h
  dsimp only at h
  split_ifs at h
  exact (Except.ok.inj h).symm

theorem shift_of_toHumanPrice (h : u.toHumanPrice p = .ok r) : Amount.shift p u.gap = .ok r := by
  obtain ⟨e, found, h⟩ := bind_eq_ok.mp h
  rwa [← exponent_eq_ok found]

theorem shift_of_toChainPrice (h : u.toChainPrice p = .ok r) : Amount.shift p (-u.gap) = .ok r := by
  obtain ⟨e, found, h⟩ := bind_eq_ok.mp h
  obtain ⟨e', flipped, h⟩ := bind_eq_ok.mp h
  obtain rfl := Amount.negated_eq_ok flipped
  rwa [← exponent_eq_ok found]

theorem roundsTo_of_toHumanPrice (h : u.toHumanPrice p = .ok r) :
    RoundsTo (p.value * 10 ^ u.gap) r :=
  Amount.roundsTo_of_shift (shift_of_toHumanPrice h)

theorem roundsTo_of_toChainPrice (h : u.toChainPrice p = .ok r) :
    RoundsTo (p.value * 10 ^ (-u.gap)) r :=
  Amount.roundsTo_of_shift (shift_of_toChainPrice h)

/-- The quote asset has at most nine decimals more than the base asset, and no more than
twenty-eight. -/
structure Moderate (u : Units) : Prop where
  base_le : u.base ≤ 28
  quote_le : u.quote ≤ 28
  close : u.quote ≤ u.base + 9

theorem Moderate.gap_ge (h : u.Moderate) : -9 ≤ u.gap := by
  have close := h.close
  rw [gap, Amount.exponentOfDecimals_of_le h.base_le, Amount.exponentOfDecimals_of_le h.quote_le]
  omega

/-- Where the decimals of a pair are moderate, the human price of a tick is exact. -/
theorem value_of_toHumanPrice (moderate : u.Moderate) (price : Tick.price t = .ok p)
    (h : u.toHumanPrice p = .ok r) : r.value = p.value * 10 ^ u.gap := by
  have rounds := roundsTo_of_toHumanPrice h
  have scientific : p.value * 10 ^ u.gap
      = Tick.significand t * 10 ^ (Tick.stepExponent t + u.gap) := by
    rw [Tick.value_of_price price, Tick.exactPrice_eq, mul_assoc, ← zpow_add₀ (by norm_num)]
  rw [scientific] at rounds ⊢
  have places := Tick.stepExponent_ge (Tick.inRange_of_price price)
  have gap := moderate.gap_ge
  exact Tick.value_eq_significand rounds (by omega)

end Units

end CrossBook
