import CrossBook.Proofs.Decimal.Rounding
import Mathlib.Algebra.Order.Floor.Ring
import Mathlib.Data.Nat.Cast.Order.Field
import Mathlib.Data.Rat.Floor

/-!
# The numbers decimals stand for

Order and equality by units are order and equality of rational numbers. An operation rounds its
exact result, and rounding keeps order, so an inequality between exact results with a decimal on one
side survives it.

## Main definitions

* `Decimal.value` — the number a decimal stands for
* `Decimal.RoundsTo` — a number is rounded to a decimal
* `Decimal.slack` — as far as rounding may go
* `Decimal.IsWhole` — a decimal without a fraction
* `Decimal.towardZero` — the whole part of a number

## Main results

* `Decimal.RoundsTo.mono` — rounding keeps order
* `Decimal.RoundsTo.near` — rounding does not go far
* `Decimal.RoundsTo.value_eq`, `Decimal.RoundsTo.value_eq_int` — decimals and whole numbers are kept
* `Decimal.roundsTo_of_add?`, `roundsTo_of_sub?`, `roundsTo_of_mul?`, `roundsTo_of_div?` —
  operations round their exact results
-/

namespace CrossBook.Decimal

variable {a b c d : Decimal} {x y : ℚ}

/-- The number a decimal stands for. -/
def value (d : Decimal) : ℚ := d.coefficient / tenTo d.scale

theorem tenTo_cast_pos (k : Nat) : (0 : ℚ) < tenTo k := by exact_mod_cast tenTo_pos k

theorem tenTo_cast_ne_zero (k : Nat) : (tenTo k : ℚ) ≠ 0 := (tenTo_cast_pos k).ne'

theorem tenTo_add (j k : Nat) : tenTo (j + k) = tenTo j * tenTo k := Nat.pow_add 10 j k

theorem tenTo_cast (k : Nat) : (tenTo k : ℚ) = 10 ^ k := by
  unfold tenTo
  exact_mod_cast rfl

theorem unitsOfOne_pos : (0 : ℚ) < unitsOfOne := tenTo_cast_pos maxScale

/-! ### Order -/

theorem units_eq (d : Decimal) : (d.units : ℚ) = d.value * unitsOfOne := by
  have split : maxScale = d.scale + (maxScale - d.scale) :=
    (Nat.add_sub_cancel' d.scale_le).symm
  have powers : (unitsOfOne : ℚ) = tenTo d.scale * tenTo (maxScale - d.scale) := by
    rw [unitsOfOne, split, tenTo_add, ← split]
    push_cast
    rfl
  have positive := tenTo_cast_ne_zero d.scale
  rw [value, powers, units]
  push_cast
  field_simp

theorem value_eq_units_div (d : Decimal) : d.value = d.units / unitsOfOne := by
  rw [units_eq, mul_div_cancel_right₀ _ unitsOfOne_pos.ne']

theorem le_iff_value : a ≤ b ↔ a.value ≤ b.value := by
  rw [le_iff_units, value_eq_units_div a, value_eq_units_div b,
    div_le_div_iff_of_pos_right unitsOfOne_pos, Int.cast_le]

theorem lt_iff_value : a < b ↔ a.value < b.value := by
  rw [lt_iff_units, value_eq_units_div a, value_eq_units_div b,
    div_lt_div_iff_of_pos_right unitsOfOne_pos, Int.cast_lt]

theorem not_le_iff_lt : ¬ a ≤ b ↔ b < a := by rw [le_iff_value, lt_iff_value, not_le]

theorem sameValue_iff_value : a.SameValue b ↔ a.value = b.value := by
  rw [SameValue, value_eq_units_div a, value_eq_units_div b,
    div_left_inj' unitsOfOne_pos.ne', Int.cast_inj]

theorem value_eq_units_mul_zpow (d : Decimal) : d.value = d.units * 10 ^ (-28 : ℤ) := by
  rw [value_eq_units_div, unitsOfOne, tenTo_cast, zpow_neg, ← div_eq_mul_inv]
  rfl

theorem units_pos (positive : 0 < d.value) : 0 < d.units := by
  rw [value_eq_units_mul_zpow] at positive
  exact_mod_cast pos_of_mul_pos_left positive (by positivity)

theorem units_eq_zero_iff : d.units = 0 ↔ d.value = 0 := by
  rw [value_eq_units_div, div_eq_zero_iff, Int.cast_eq_zero]
  simp [unitsOfOne_pos.ne']

@[simp] theorem value_zero : zero.value = 0 := by simp [value, zero, coefficient]

@[simp] theorem value_one : one.value = 1 := by simp [value, one, coefficient]

theorem value_le_maxCoefficient (d : Decimal) : d.value ≤ maxCoefficient := by
  have fits : (d.coefficient : ℚ) ≤ maxCoefficient := by
    have := d.natAbs_coefficient_le
    exact_mod_cast Int.le_natAbs.trans (by exact_mod_cast this)
  have power : (1 : ℚ) ≤ tenTo d.scale := by exact_mod_cast tenTo_pos d.scale
  rw [value, div_le_iff₀ (tenTo_cast_pos _)]
  exact fits.trans (le_mul_of_one_le_right (Nat.cast_nonneg _) power)

theorem value_nonneg_iff : 0 ≤ d.value ↔ 0 ≤ d.coefficient := by
  rw [value, le_div_iff₀ (tenTo_cast_pos _), zero_mul, Int.cast_nonneg_iff]

theorem value_min (a b : Decimal) : (a.min b).value = Min.min a.value b.value := by
  unfold Decimal.min
  split_ifs with h
  · rw [min_eq_left (le_iff_value.mp h)]
  · rw [min_eq_right (lt_iff_value.mp (not_le_iff_lt.mp h)).le]

theorem value_max (a b : Decimal) : (a.max b).value = Max.max a.value b.value := by
  unfold Decimal.max
  split_ifs with h
  · rw [max_eq_left (le_iff_value.mp h)]
  · rw [max_eq_right (lt_iff_value.mp (not_le_iff_lt.mp h)).le]

/-! ### Rounding -/

/-- The decimal is what the number is rounded to. -/
def RoundsTo (x : ℚ) (d : Decimal) : Prop :=
  ∃ (num : ℤ) (den : ℕ), 0 < den ∧ x = num / den ∧ ofRatio? num den = some d

theorem value_of_ofSigned? {negative : Bool} {m s : Nat} (h : ofSigned? negative m s = some d) :
    d.value = (if negative then -(m : ℚ) else m) / tenTo s := by
  unfold ofSigned? at h
  split_ifs at h
  obtain rfl := Option.some.inj h
  cases negative <;> simp [value, coefficient]

theorem value_of_ofParts? {c : Int} {s : Nat} (h : ofParts? c s = some d) :
    d.value = c / tenTo s := by
  rw [value_of_ofSigned? h]
  congr 1
  rcases lt_or_ge c 0 with negative | nonneg
  · rw [if_pos (decide_eq_true negative)]
    have := Int.ofNat_natAbs_of_nonpos negative.le
    rw [← Int.cast_natCast, this, Int.cast_neg, neg_neg]
  · rw [if_neg (by simpa using nonneg)]
    rw [← Int.cast_natCast, Int.natAbs_of_nonneg nonneg]

/-- A rounded quotient is its rounded magnitude with the sign of the quotient. -/
theorem ofRatio?_eq_some {num : Int} {den : Nat} (h : ofRatio? num den = some d) :
    ∃ m s, roundedParts? num.natAbs den = some (m, s) ∧
      d.value = (if num < 0 then -(m : ℚ) else m) / tenTo s := by
  rw [ofRatio?] at h
  obtain ⟨⟨m, s⟩, parts, h⟩ := Option.bind_eq_some_iff.mp h
  refine ⟨m, s, parts, ?_⟩
  rw [value_of_ofParts? h]
  split_ifs <;> simp

private theorem div_tenTo_le {m s m' s' : Nat} (h : m * tenTo s' ≤ m' * tenTo s) :
    (m : ℚ) / tenTo s ≤ m' / tenTo s' := by
  rw [div_le_div_iff₀ (tenTo_cast_pos _) (tenTo_cast_pos _)]
  exact_mod_cast h

private theorem natAbs_cast_of_nonneg {num : Int} (h : 0 ≤ num) : (num.natAbs : ℚ) = num := by
  rw [← Int.cast_natCast, Int.natAbs_of_nonneg h]

private theorem natAbs_cast_of_neg {num : Int} (h : num < 0) : (num.natAbs : ℚ) = -num := by
  rw [← Int.cast_natCast, Int.ofNat_natAbs_of_nonpos h.le, Int.cast_neg]

/-- Rounding keeps order. -/
theorem RoundsTo.mono (ha : RoundsTo x a) (hb : RoundsTo y b) (h : x ≤ y) :
    a.value ≤ b.value := by
  obtain ⟨num, den, positive, rfl, ha⟩ := ha
  obtain ⟨num', den', positive', rfl, hb⟩ := hb
  obtain ⟨m, s, parts, value_a⟩ := ofRatio?_eq_some ha
  obtain ⟨m', s', parts', value_b⟩ := ofRatio?_eq_some hb
  have den_pos : (0 : ℚ) < den := by exact_mod_cast positive
  have den_pos' : (0 : ℚ) < den' := by exact_mod_cast positive'
  rw [div_le_div_iff₀ den_pos den_pos'] at h
  rw [value_a, value_b]
  -- numbers of one sign compare by magnitude, numbers of different signs by sign
  by_cases negative : num < 0 <;> by_cases negative' : num' < 0 <;>
    simp only [negative, negative', if_true, if_false]
  · rw [neg_div, neg_div, neg_le_neg_iff]
    refine div_tenTo_le (roundedParts?_mono positive' positive ?_ parts' parts)
    have : (num'.natAbs : ℚ) * den ≤ num.natAbs * den' := by
      rw [natAbs_cast_of_neg negative, natAbs_cast_of_neg negative']
      linarith
    exact_mod_cast this
  · rw [neg_div]
    have left : (0 : ℚ) ≤ m / tenTo s := by positivity
    have right : (0 : ℚ) ≤ m' / tenTo s' := by positivity
    linarith
  · exfalso
    have left : (0 : ℚ) ≤ num := by exact_mod_cast not_lt.mp negative
    have right : (num' : ℚ) < 0 := by exact_mod_cast negative'
    nlinarith [mul_nonneg left den_pos'.le, mul_pos_of_neg_of_neg right (neg_lt_zero.mpr den_pos)]
  · refine div_tenTo_le (roundedParts?_mono positive positive' ?_ parts parts')
    have : (num.natAbs : ℚ) * den' ≤ num'.natAbs * den := by
      rwa [natAbs_cast_of_nonneg (not_lt.mp negative), natAbs_cast_of_nonneg (not_lt.mp negative')]
    exact_mod_cast this

private theorem signed_value {num : Int} {den m s : Nat} (positive : 0 < den)
    (kept : m * den = num.natAbs * tenTo s) :
    (if num < 0 then -(m : ℚ) else m) / tenTo s = num / den := by
  have den_pos : (0 : ℚ) < den := by exact_mod_cast positive
  have kept : (m : ℚ) * den = num.natAbs * tenTo s := by exact_mod_cast kept
  rw [div_eq_div_iff (tenTo_cast_ne_zero s) den_pos.ne']
  split_ifs with negative
  · rw [natAbs_cast_of_neg negative] at kept
    linarith
  · rw [natAbs_cast_of_nonneg (not_lt.mp negative)] at kept
    exact kept

/-- A quotient that is a decimal is rounded to that value. -/
theorem ofRatio?_of_value {num : Int} {den : Nat} (positive : 0 < den)
    (h : (num : ℚ) / den = d.value) : ∃ e, ofRatio? num den = some e ∧ e.value = d.value := by
  have den_pos : (0 : ℚ) < den := by exact_mod_cast positive
  -- the scale of the decimal fits, and at it or any larger one the quotient leaves no remainder
  have same : num.natAbs * tenTo d.scale = d.magnitude * den := by
    rw [value, div_eq_div_iff den_pos.ne' (tenTo_cast_ne_zero _)] at h
    have cross : num * tenTo d.scale = d.coefficient * den := by exact_mod_cast h
    have := congrArg Int.natAbs cross
    rwa [Int.natAbs_mul, Int.natAbs_mul, Int.natAbs_natCast, Int.natAbs_natCast,
      natAbs_coefficient] at this
  obtain ⟨m, s, parts, kept⟩ := roundedParts?_of_fits positive d.scale_le d.magnitude_le same
  obtain ⟨m_le, s_le⟩ := roundedParts?_inRange parts
  have abs : (if num < 0 then -(m : Int) else m).natAbs = m := by split_ifs <;> simp
  obtain ⟨e, he⟩ : ∃ e, ofParts? (if num < 0 then -(m : Int) else m) s = some e := by
    unfold ofParts? ofSigned?
    rw [abs, dif_pos ⟨m_le, s_le⟩]
    exact ⟨_, rfl⟩
  refine ⟨e, by rw [ofRatio?, parts, Option.bind_some, he], ?_⟩
  rw [← h, value_of_ofParts? he, ← signed_value positive kept]
  split_ifs <;> simp

/-- A decimal is rounded to its own value. -/
theorem RoundsTo.value_eq (h : RoundsTo d.value c) : c.value = d.value := by
  obtain ⟨num, den, positive, same, h⟩ := h
  obtain ⟨e, found, value_e⟩ := ofRatio?_of_value positive same.symm
  rwa [← Option.some.inj (found.symm.trans h)]

/-- A whole number is rounded to itself. -/
theorem RoundsTo.value_eq_int {n : ℤ} (h : RoundsTo n d) : d.value = n := by
  obtain ⟨num, den, positive, same, h⟩ := h
  obtain ⟨m, s, parts, value_d⟩ := ofRatio?_eq_some h
  have den_pos : (0 : ℚ) < den := by exact_mod_cast positive
  have whole : den ∣ num.natAbs := by
    rw [eq_div_iff den_pos.ne'] at same
    have cross : n * den = num := by exact_mod_cast same
    rw [← cross, Int.natAbs_mul, Int.natAbs_natCast]
    exact Nat.dvd_mul_left _ _
  rw [value_d, same]
  exact signed_value positive (roundedParts?_of_dvd positive whole parts)

/-- A number with a coefficient in range and at most twenty-eight places is kept. -/
theorem RoundsTo.value_eq_scientific {m k : ℤ} (h : RoundsTo (m * 10 ^ k) d)
    (fits : m.natAbs ≤ maxCoefficient) (places : -(maxScale : ℤ) ≤ k) :
    d.value = m * 10 ^ k := by
  -- a power that is not negative makes the number whole, any other is the scale of a decimal
  rcases le_or_gt 0 k with whole | fraction
  · have power : (10 : ℚ) ^ k = ((10 ^ k.toNat : ℤ) : ℚ) := by
      rw [Int.cast_pow, ← zpow_natCast, Int.toNat_of_nonneg whole]
      norm_num
    rw [power, ← Int.cast_mul] at h ⊢
    exact h.value_eq_int
  · obtain ⟨e, found⟩ : ∃ e, ofParts? m k.natAbs = some e := by
      unfold ofParts? ofSigned?
      rw [dif_pos ⟨fits, by omega⟩]
      exact ⟨_, rfl⟩
    have value_e : e.value = m * 10 ^ k := by
      rw [value_of_ofParts? found, tenTo_cast, ← zpow_natCast, div_eq_mul_inv, ← zpow_neg,
        Int.ofNat_natAbs_of_nonpos fraction.le, neg_neg]
    rw [← value_e] at h ⊢
    exact h.value_eq

theorem exists_roundsTo_value (d : Decimal) : ∃ e, RoundsTo d.value e ∧ e.value = d.value := by
  have exact : (d.coefficient : ℚ) / tenTo d.scale = d.value := rfl
  obtain ⟨e, found, value_e⟩ := ofRatio?_of_value (tenTo_pos d.scale) exact
  exact ⟨e, ⟨_, _, tenTo_pos d.scale, exact.symm, found⟩, value_e⟩

theorem RoundsTo.le (h : RoundsTo x c) (le : x ≤ d.value) : c.value ≤ d.value := by
  obtain ⟨e, rounds, value_e⟩ := exists_roundsTo_value d
  exact (h.mono rounds le).trans_eq value_e

theorem RoundsTo.ge (h : RoundsTo x c) (le : d.value ≤ x) : d.value ≤ c.value := by
  obtain ⟨e, rounds, value_e⟩ := exists_roundsTo_value d
  exact value_e.symm.trans_le (rounds.mono h le)

theorem RoundsTo.nonneg (h : RoundsTo x c) (le : 0 ≤ x) : 0 ≤ c.value := by
  simpa using h.ge (d := zero) (by simpa using le)

/-- As far as an amount that is not negative may be away from what was rounded to it: a unit of the
last place there is, and a unit of the last digit. -/
def slack (y : ℚ) : ℚ := (1 + y) / 10 ^ 28

theorem slack_mono (h : x ≤ y) : slack x ≤ slack y :=
  div_le_div_of_nonneg_right (by linarith) (by positivity)

theorem slack_nonneg (h : 0 ≤ x) : 0 ≤ slack x := div_nonneg (by linarith) (by positivity)

/-- A number that is not negative is rounded to a decimal that is near. -/
theorem RoundsTo.near (h : RoundsTo x d) (nonneg : 0 ≤ x) :
    d.value ≤ x + slack d.value ∧ x ≤ d.value + slack d.value := by
  obtain ⟨num, den, positive, rfl, h⟩ := h
  obtain ⟨m, s, parts, value_d⟩ := ofRatio?_eq_some h
  have den_pos : (0 : ℚ) < den := by exact_mod_cast positive
  have num_nonneg : 0 ≤ num := by
    rw [le_div_iff₀ den_pos, zero_mul] at nonneg
    exact_mod_cast nonneg
  rw [if_neg (not_lt.mpr num_nonneg)] at value_d
  obtain ⟨above, below, place⟩ := roundedParts?_near positive parts
  have power := tenTo_cast_pos s
  have above : 2 * (m * den : ℚ) ≤ 2 * (num * tenTo s) + den := by
    rw [← natAbs_cast_of_nonneg num_nonneg]
    exact_mod_cast above
  have below : 2 * (num * tenTo s : ℚ) ≤ 2 * (m * den) + den := by
    rw [← natAbs_cast_of_nonneg num_nonneg]
    exact_mod_cast below
  -- half a unit of the place it was rounded at
  have half : 1 / (2 * tenTo s) ≤ slack d.value := by
    rw [slack, value_d, div_le_div_iff₀ (by positivity) (by positivity)]
    rcases place with rfl | long
    · have last : (tenTo maxScale : ℚ) = 10 ^ 28 := tenTo_cast maxScale
      have : (0 : ℚ) ≤ m / tenTo maxScale := by positivity
      rw [last] at this ⊢
      linarith
    · have long : (10 : ℚ) ^ 28 ≤ 2 * m := by exact_mod_cast long
      have : m / tenTo s * tenTo s = (m : ℚ) := div_mul_cancel₀ _ power.ne'
      linarith
  rw [value_d] at half ⊢
  have quotient : (num : ℚ) / den = num * tenTo s / (den * tenTo s) :=
    (mul_div_mul_right _ _ power.ne').symm
  have product : (m : ℚ) / tenTo s = m * den / (den * tenTo s) := by
    rw [mul_comm (den : ℚ), mul_div_mul_right _ _ den_pos.ne']
  have unit : 1 / (2 * tenTo s : ℚ) = den / 2 / (den * tenTo s) := by
    field_simp
  rw [quotient]
  constructor
  all_goals
    refine le_trans ?_ (add_le_add_right half _)
    rw [product, unit, ← add_div]
    exact div_le_div_of_nonneg_right (by linarith) (by positivity)

/-! ### Operations -/

theorem roundsTo_of_add? (h : a.add? b = some c) : RoundsTo (a.value + b.value) c := by
  refine ⟨_, _, tenTo_pos maxScale, ?_, h⟩
  rw [value_eq_units_div a, value_eq_units_div b, ← add_div, Int.cast_add]
  rfl

theorem roundsTo_of_sub? (h : a.sub? b = some c) : RoundsTo (a.value - b.value) c := by
  refine ⟨_, _, tenTo_pos maxScale, ?_, h⟩
  rw [value_eq_units_div a, value_eq_units_div b, ← sub_div, Int.cast_sub]
  rfl

theorem roundsTo_of_mul? (h : a.mul? b = some c) : RoundsTo (a.value * b.value) c := by
  refine ⟨_, _, Nat.mul_pos (tenTo_pos maxScale) (tenTo_pos maxScale), ?_, h⟩
  rw [value_eq_units_div a, value_eq_units_div b, div_mul_div_comm, Int.cast_mul, Nat.cast_mul]
  rfl

theorem value_ne_zero_of_div? (h : a.div? b = some c) : b.value ≠ 0 := by
  rw [div?] at h
  split_ifs at h with nonzero
  rwa [Ne, ← units_eq_zero_iff]

theorem roundsTo_of_div? (h : a.div? b = some c) : RoundsTo (a.value / b.value) c := by
  rw [div?] at h
  split_ifs at h with nonzero
  refine ⟨_, _, Int.natAbs_pos.mpr nonzero, ?_, h⟩
  rw [value_eq_units_div a, value_eq_units_div b, div_div_div_cancel_right₀ unitsOfOne_pos.ne',
    Int.cast_mul]
  have nonzero : (b.units : ℚ) ≠ 0 := by exact_mod_cast nonzero
  rcases lt_or_gt_of_ne nonzero with negative | positive
  · have negative : b.units < 0 := by exact_mod_cast negative
    rw [natAbs_cast_of_neg negative, Int.sign_eq_neg_one_of_neg negative, Int.cast_neg,
      Int.cast_one, mul_neg_one, neg_div_neg_eq]
  · have positive : 0 < b.units := by exact_mod_cast positive
    rw [natAbs_cast_of_nonneg positive.le, Int.sign_eq_one_of_pos positive, Int.cast_one, mul_one]

/-- Operations do not tell decimals of one value apart. -/
theorem SameValue.div?_eq (h : a.SameValue b) (c : Decimal) : a.div? c = b.div? c := by
  rw [div?, div?, h]

theorem SameValue.mul?_eq (h : a.SameValue b) (c : Decimal) : a.mul? c = b.mul? c := by
  rw [mul?, mul?, h]

theorem SameValue.add?_eq (h : a.SameValue b) (c : Decimal) : c.add? a = c.add? b := by
  rw [add?, add?, h]

theorem exists_ofRatio?_iff {num : Int} {den : Nat} (positive : 0 < den) :
    (∃ d, ofRatio? num den = some d) ↔ divHalfEven num.natAbs den ≤ maxCoefficient := by
  rw [← exists_roundedParts?_iff positive]
  constructor
  · rintro ⟨d, found⟩
    obtain ⟨m, s, parts, -⟩ := ofRatio?_eq_some found
    exact ⟨_, parts⟩
  · rintro ⟨⟨m, s⟩, parts⟩
    have inRange := roundedParts?_inRange parts
    have abs : (if num < 0 then -(m : Int) else m).natAbs = m := by split_ifs <;> simp
    rw [ofRatio?, parts, Option.bind_some, ofParts?, ofSigned?, abs, dif_pos inRange]
    exact ⟨_, rfl⟩

/-- A quotient that is no larger than the largest coefficient can be rounded. -/
theorem exists_ofRatio? {num : Int} {den : Nat} (positive : 0 < den)
    (small : |(num : ℚ) / den| ≤ maxCoefficient) : ∃ d, ofRatio? num den = some d := by
  have den_pos : (0 : ℚ) < den := by exact_mod_cast positive
  have bound : num.natAbs ≤ maxCoefficient * den := by
    rw [abs_div, abs_of_pos den_pos, div_le_iff₀ den_pos, ← Int.cast_abs, Int.abs_eq_natAbs,
      Int.cast_natCast] at small
    exact_mod_cast small
  rw [exists_ofRatio?_iff positive, ← exists_roundedParts?_iff positive]
  exact exists_roundedParts? positive bound

theorem exists_add? (small : |a.value + b.value| ≤ maxCoefficient) :
    ∃ c, a.add? b = some c := by
  refine exists_ofRatio? (tenTo_pos maxScale) ?_
  rwa [value_eq_units_div a, value_eq_units_div b, ← add_div, ← Int.cast_add] at small

theorem exists_sub? (small : |a.value - b.value| ≤ maxCoefficient) :
    ∃ c, a.sub? b = some c := by
  refine exists_ofRatio? (tenTo_pos maxScale) ?_
  rwa [value_eq_units_div a, value_eq_units_div b, ← sub_div, ← Int.cast_sub] at small

theorem exists_mul? (small : |a.value * b.value| ≤ maxCoefficient) :
    ∃ c, a.mul? b = some c := by
  refine exists_ofRatio? (Nat.mul_pos (tenTo_pos maxScale) (tenTo_pos maxScale)) ?_
  rwa [value_eq_units_div a, value_eq_units_div b, div_mul_div_comm, ← Int.cast_mul,
    unitsOfOne, ← Nat.cast_mul] at small

theorem exists_div? (positive : 0 < b.value) (small : |a.value / b.value| ≤ maxCoefficient) :
    ∃ c, a.div? b = some c := by
  have nonzero : b.units ≠ 0 := fun zero => positive.ne' (units_eq_zero_iff.mp zero)
  have sign : 0 < b.units := by
    rw [value_eq_units_div, lt_div_iff₀ unitsOfOne_pos, zero_mul] at positive
    exact_mod_cast positive
  rw [div?, if_neg nonzero]
  refine exists_ofRatio? (Int.natAbs_pos.mpr nonzero) ?_
  rwa [value_eq_units_div a, value_eq_units_div b, div_div_div_cancel_right₀ unitsOfOne_pos.ne',
    ← natAbs_cast_of_nonneg sign.le, ← mul_one (a.units : ℚ), ← Int.cast_one,
    ← Int.sign_eq_one_of_pos sign, ← Int.cast_mul] at small

theorem exists_ofParts? {c : Int} {s : Nat} (fits : c.natAbs ≤ maxCoefficient)
    (places : s ≤ maxScale) : ∃ d, ofParts? c s = some d := by
  unfold ofParts? ofSigned?
  rw [dif_pos ⟨fits, places⟩]
  exact ⟨_, rfl⟩

/-- The powers of ten that are decimals are those with at most twenty-eight places or zeros. -/
theorem exists_powerOfTen?_iff {e : Int} :
    (∃ d, powerOfTen? e = some d) ↔ e.natAbs ≤ maxScale := by
  unfold powerOfTen?
  split_ifs with large nonneg
  · simpa using large
  · refine iff_of_true (exists_ofParts? ?_ (Nat.zero_le _)) (not_lt.mp large)
    calc (tenTo e.toNat : Int).natAbs = tenTo e.toNat := Int.natAbs_natCast _
      _ ≤ tenTo maxScale := Nat.pow_le_pow_right (by decide) (by omega)
      _ ≤ maxCoefficient := by decide
  · exact iff_of_true (exists_ofParts? (by decide) (not_lt.mp large)) (not_lt.mp large)

theorem value_of_powerOfTen? {e : Int} (h : powerOfTen? e = some d) : d.value = 10 ^ e := by
  rw [powerOfTen?] at h
  split_ifs at h with large nonneg
  · rw [value_of_ofParts? h, Int.cast_natCast, tenTo_cast, tenTo_zero, Nat.cast_one, div_one,
      ← zpow_natCast, Int.toNat_of_nonneg nonneg]
  · rw [value_of_ofParts? h, tenTo_cast, ← zpow_natCast, Int.cast_one, one_div, ← zpow_neg,
      Int.ofNat_natAbs_of_nonpos (by omega), neg_neg]

/-! ### Whole parts -/

/-- The whole part of a number, towards zero. -/
def towardZero (x : ℚ) : ℤ := if 0 ≤ x then ⌊x⌋ else ⌈x⌉

theorem towardZero_of_nonneg (h : 0 ≤ x) : towardZero x = ⌊x⌋ := if_pos h

theorem towardZero_of_nonpos (h : x ≤ 0) : towardZero x = ⌈x⌉ := by
  unfold towardZero
  split_ifs with nonneg
  · rw [le_antisymm h nonneg, Int.floor_zero, Int.ceil_zero]
  · rfl

theorem towardZero_neg (x : ℚ) : towardZero (-x) = -towardZero x := by
  rcases le_total 0 x with nonneg | nonpos
  · rw [towardZero_of_nonneg nonneg, towardZero_of_nonpos (neg_nonpos.mpr nonneg), Int.ceil_neg]
  · rw [towardZero_of_nonpos nonpos, towardZero_of_nonneg (neg_nonneg.mpr nonpos), Int.floor_neg]

theorem towardZero_intCast (n : ℤ) : towardZero (n : ℚ) = n := by
  unfold towardZero
  split_ifs
  · exact Int.floor_intCast n
  · exact Int.ceil_intCast n

theorem towardZero_nonpos (h : x ≤ 0) : towardZero x ≤ 0 := by
  rw [towardZero_of_nonpos h]
  exact Int.ceil_nonpos.mpr h

theorem towardZero_mono (h : x ≤ y) : towardZero x ≤ towardZero y := by
  rcases le_total 0 x with nonneg | nonpos
  · rw [towardZero_of_nonneg nonneg, towardZero_of_nonneg (nonneg.trans h)]
    exact Int.floor_mono h
  · rcases le_total 0 y with nonneg' | nonpos'
    · rw [towardZero_of_nonneg nonneg']
      exact (towardZero_nonpos nonpos).trans (Int.floor_nonneg.mpr nonneg')
    · rw [towardZero_of_nonpos nonpos, towardZero_of_nonpos nonpos']
      exact Int.ceil_mono h

theorem towardZero_div_natCast (n : ℤ) (m : ℕ) : towardZero ((n : ℚ) / m) = n.tdiv m := by
  rcases le_total 0 n with nonneg | nonpos
  · have : (0 : ℚ) ≤ n := by exact_mod_cast nonneg
    rw [towardZero_of_nonneg (by positivity), Rat.floor_intCast_div_natCast,
      Int.tdiv_eq_ediv_of_nonneg nonneg]
  · -- both sides change their sign with the number
    obtain ⟨k, rfl⟩ : ∃ k, n = -k := ⟨-n, (neg_neg n).symm⟩
    have nonneg : 0 ≤ k := by omega
    have : (0 : ℚ) ≤ k := by exact_mod_cast nonneg
    rw [Int.cast_neg, neg_div, towardZero_neg, towardZero_of_nonneg (by positivity),
      Rat.floor_intCast_div_natCast, Int.neg_tdiv, Int.tdiv_eq_ediv_of_nonneg nonneg]

/-! ### Whole numbers -/

/-- The decimal has no fraction. -/
def IsWhole (d : Decimal) : Prop := ∃ n : ℤ, d.value = n

theorem isWhole_zero : zero.IsWhole := ⟨0, by simp⟩

theorem trunc_value (d : Decimal) :
    d.trunc.value = (d.coefficient.tdiv (tenTo d.scale) : ℤ) := by
  unfold trunc value coefficient
  split_ifs <;> simp [Int.neg_tdiv]

/-- Dropping the fraction is taking the whole part of the value. -/
theorem trunc_value_eq (d : Decimal) : d.trunc.value = towardZero d.value := by
  rw [trunc_value, value, towardZero_div_natCast]

theorem trunc_isWhole (d : Decimal) : d.trunc.IsWhole := ⟨_, d.trunc_value⟩

theorem isWhole_iff : d.IsWhole ↔ d.trunc.SameValue d := by
  rw [sameValue_iff_value]
  constructor
  · -- the coefficient of a whole number is a multiple of the power that truncation divides by
    rintro ⟨n, whole⟩
    have coefficient_eq : d.coefficient = n * tenTo d.scale := by
      rw [value, div_eq_iff (tenTo_cast_ne_zero _)] at whole
      exact_mod_cast whole
    have divisor : (tenTo d.scale : ℤ) ≠ 0 := by exact_mod_cast (tenTo_pos _).ne'
    rw [whole, trunc_value, coefficient_eq, Int.mul_tdiv_cancel _ divisor]
  · intro same
    exact ⟨_, same.symm.trans d.trunc_value⟩

instance (d : Decimal) : Decidable d.IsWhole := decidable_of_iff _ isWhole_iff.symm

theorem IsWhole.trunc_value (whole : d.IsWhole) : d.trunc.value = d.value :=
  sameValue_iff_value.mp (isWhole_iff.mp whole)

theorem IsWhole.one_le (whole : d.IsWhole) (positive : 0 < d.value) : 1 ≤ d.value := by
  obtain ⟨n, value⟩ := whole
  rw [value] at positive ⊢
  exact_mod_cast positive

theorem IsWhole.le_of_lt_add_one (ha : a.IsWhole) (hb : b.IsWhole)
    (h : a.value < b.value + 1) : a ≤ b := by
  obtain ⟨m, hm⟩ := ha
  obtain ⟨n, hn⟩ := hb
  rw [hm, hn] at h
  rw [le_iff_value, hm, hn]
  exact_mod_cast Int.lt_add_one_iff.mp (by exact_mod_cast h)

theorem trunc_value_of_nonneg (h : 0 ≤ d.value) : d.trunc.value = ⌊d.value⌋ := by
  rw [trunc_value_eq, towardZero_of_nonneg h]

theorem trunc_nonneg (h : 0 ≤ d.value) : 0 ≤ d.trunc.value := by
  rw [trunc_value_of_nonneg h]
  exact_mod_cast Int.floor_nonneg.mpr h

theorem trunc_le (h : 0 ≤ d.value) : d.trunc.value ≤ d.value := by
  rw [trunc_value_of_nonneg h]
  exact Int.floor_le _

theorem lt_trunc_add_one (h : 0 ≤ d.value) : d.value < d.trunc.value + 1 := by
  rw [trunc_value_of_nonneg h]
  exact Int.lt_floor_add_one _

theorem trunc_nonpos (h : d.value ≤ 0) : d.trunc.value ≤ 0 := by
  rw [trunc_value_eq]
  exact_mod_cast towardZero_nonpos h

/-- Dropping the fraction keeps order, on both sides of zero. -/
theorem trunc_mono (h : a.value ≤ b.value) : a.trunc.value ≤ b.trunc.value := by
  rw [trunc_value_eq, trunc_value_eq]
  exact_mod_cast towardZero_mono h

/-- The coefficient of the largest whole number that is not above a decimal. -/
theorem floor_coefficient (d : Decimal) : d.floor.coefficient = ⌊d.value⌋ := by
  have quotient : ⌊d.value⌋ = d.coefficient / tenTo d.scale := by
    rw [value, Rat.floor_intCast_div_natCast]
  have power : (0 : ℤ) < tenTo d.scale := by exact_mod_cast tenTo_pos d.scale
  rw [quotient, coefficient, floor]
  dsimp only
  split_ifs with negative
  · have nonpos : d.coefficient ≤ 0 := by
      rw [coefficient, if_pos negative]
      omega
    have : d.coefficient / tenTo d.scale ≤ 0 := by
      have := Int.ediv_le_ediv power nonpos
      rwa [Int.zero_ediv] at this
    omega
  · have nonneg : 0 ≤ d.coefficient := by
      rw [coefficient, if_neg negative]
      omega
    have := Int.ediv_nonneg nonneg power.le
    omega

/-- A whole number is taken as it is where it fits a word. -/
theorem toInt64?_floor (d : Decimal) :
    d.floor.toInt64? = if -twoTo 63 ≤ ⌊d.value⌋ ∧ ⌊d.value⌋ < twoTo 63 then some ⌊d.value⌋
      else none := by
  have whole : d.floor.trunc.coefficient = ⌊d.value⌋ := by
    rw [← floor_coefficient]
    have places : d.floor.scale = 0 := rfl
    simp [trunc, coefficient, places, tenTo_zero]
  rw [toInt64?, whole]

/-- The smallest whole number that is not below a number that is not negative. -/
theorem ceil_value_of_nonneg (h : 0 ≤ d.value) : d.ceil.value = ⌈d.value⌉ := by
  have nonneg := value_nonneg_iff.mp h
  have power : (0 : ℤ) < tenTo d.scale := by exact_mod_cast tenTo_pos d.scale
  have quotient : -d.coefficient / tenTo d.scale ≤ 0 :=
    Int.ediv_nonpos_of_nonpos_of_neg (by omega) power
  have ceiling : ⌈d.value⌉ = (-d.coefficient / tenTo d.scale).natAbs := by
    rw [Int.ofNat_natAbs_of_nonpos quotient, ← neg_inj, neg_neg, ← Int.floor_neg, value, ← neg_div,
      ← Int.cast_neg, Rat.floor_intCast_div_natCast]
  have places : d.ceil.scale = 0 := rfl
  have sign : d.ceil.coefficient = (-d.coefficient / tenTo d.scale).natAbs := by
    rw [ceil, coefficient]
    dsimp only
    split_ifs with negative
    · -- a zero may have a sign
      have zero : d.coefficient = 0 := by
        unfold coefficient at nonneg ⊢
        rw [if_pos negative] at nonneg ⊢
        omega
      simp [zero]
    · rfl
  rw [ceiling, value, places, sign, tenTo_zero, Nat.cast_one, div_one]

/-- A word that is taken from a decimal is its whole part. -/
theorem toNat_of_toUInt64? {n : UInt64} (h : d.toUInt64? = some n) :
    (n.toNat : ℚ) = d.trunc.value := by
  unfold toUInt64? at h
  dsimp only at h
  split_ifs at h with inRange
  obtain rfl := Option.some.inj h
  have small : d.trunc.coefficient.toNat < 2 ^ 64 := by
    have words : (twoTo 64 : ℤ) = 2 ^ 64 := by decide
    omega
  have places : d.trunc.scale = 0 := rfl
  rw [UInt64.toNat_ofNat_of_lt' small, value, places, tenTo_zero, Nat.cast_one, div_one,
    ← Int.cast_natCast, Int.toNat_of_nonneg inRange.1]

@[simp] theorem value_ofUInt64 (n : UInt64) : (ofUInt64 n).value = n.toNat := by
  simp [ofUInt64, ofWord, value, coefficient]

/-! ### Dropping places -/

/-- Dropping places is taking the whole part, counted in units of the last place that stays. -/
theorem truncTo_value_eq (d : Decimal) (places : Nat) :
    (d.truncTo places).value = towardZero (d.value * 10 ^ places) / 10 ^ places := by
  rw [← tenTo_cast, eq_div_iff (tenTo_cast_ne_zero _)]
  unfold truncTo
  split_ifs with shorter
  · have split : d.scale = (d.scale - places) + places := by omega
    have moved : d.value * tenTo places = (d.coefficient : ℚ) / (tenTo (d.scale - places) : ℕ) := by
      rw [value]
      conv_lhs => rw [split, tenTo_add, Nat.cast_mul]
      have := tenTo_cast_ne_zero places
      field_simp
    rw [moved, towardZero_div_natCast, value, div_mul_cancel₀ _ (tenTo_cast_ne_zero _)]
    unfold coefficient
    dsimp only
    split_ifs <;> simp [Int.neg_tdiv]
  · have split : places = (places - d.scale) + d.scale := by omega
    have whole : d.value * tenTo places = (d.coefficient * tenTo (places - d.scale) : ℤ) := by
      rw [value]
      conv_lhs => rw [split, tenTo_add, Nat.cast_mul]
      have := tenTo_cast_ne_zero d.scale
      push_cast
      field_simp
    rw [whole, towardZero_intCast]

/-- Dropping places of a number that is not negative is rounding down. -/
theorem value_truncTo_of_nonneg (h : 0 ≤ d.value) (places : Nat) :
    (d.truncTo places).value = ⌊d.value * 10 ^ places⌋ / 10 ^ places := by
  rw [truncTo_value_eq, towardZero_of_nonneg (by positivity)]

theorem truncTo_le (h : 0 ≤ d.value) (places : Nat) : (d.truncTo places).value ≤ d.value := by
  rw [value_truncTo_of_nonneg h, div_le_iff₀ (by positivity)]
  exact Int.floor_le _

theorem truncTo_nonneg (h : 0 ≤ d.value) (places : Nat) : 0 ≤ (d.truncTo places).value := by
  rw [value_truncTo_of_nonneg h]
  have : (0 : ℚ) ≤ ⌊d.value * 10 ^ places⌋ := by exact_mod_cast Int.floor_nonneg.mpr (by positivity)
  positivity

theorem truncTo_nonpos (h : d.value ≤ 0) (places : Nat) : (d.truncTo places).value ≤ 0 := by
  have scaled : d.value * 10 ^ places ≤ 0 := mul_nonpos_of_nonpos_of_nonneg h (by positivity)
  rw [truncTo_value_eq]
  exact div_nonpos_of_nonpos_of_nonneg (by exact_mod_cast towardZero_nonpos scaled) (by positivity)

/-- Dropping places keeps order, on both sides of zero. -/
theorem truncTo_mono (le : a.value ≤ b.value) (places : Nat) :
    (a.truncTo places).value ≤ (b.truncTo places).value := by
  have scaled : towardZero (a.value * 10 ^ places) ≤ towardZero (b.value * 10 ^ places) :=
    towardZero_mono (by gcongr)
  rw [truncTo_value_eq, truncTo_value_eq]
  gcongr

theorem truncTo_eq_self {places : Nat} (h : d.scale ≤ places) : d.truncTo places = d :=
  dif_neg (not_lt.mpr h)

end CrossBook.Decimal
