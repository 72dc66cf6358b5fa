import CrossBook.Proofs.Amount
import CrossBook.Proofs.Decimal.Range
import CrossBook.Venue.Book
import Mathlib.Data.List.Forall2

/-!
# Rescaling a book and back

Every size of a side is multiplied by one power of ten. A positive power fails or is exact. A
negative one moves places past the last one, where they are rounded off and nothing is reported, so
that only sizes whose product was a decimal come back. The others are off by what half a unit of the
last place has become.

## Main definitions

* `Venue.Level.GivenBack` — a level against the same level after its size went there and back

## Main results

* `Decimal.abs_sub_le_of_mul?` — a product with a power of ten is off by half a unit of the last
  place at most
* `Decimal.exists_mul?_back` — such a product can be multiplied back, which is exact
* `Venue.Book.rescale_back` — a rescaled book can be rescaled back, to the sizes whose products were
  decimals
* `Venue.Book.rescale_loses` — a size that does not come back
-/

namespace CrossBook

namespace Decimal

variable {p q r v : Decimal} {e : Int}

theorem roundsTo_of_mul?_power (power : powerOfTen? e = some p) (h : v.mul? p = some r) :
    RoundsTo (v.value * 10 ^ e) r := by
  rw [← value_of_powerOfTen? power]
  exact roundsTo_of_mul? h

theorem power_pos (e : Int) : (0 : ℚ) < 10 ^ e := zpow_pos (by norm_num) e

theorem zpow_mul_zpow_neg (x : ℚ) (e : Int) : x * 10 ^ e * 10 ^ (-e) = x := by
  rw [mul_assoc, ← zpow_add₀ (by norm_num), add_neg_cancel, zpow_zero, mul_one]

/-- A product of which some place is past the last one is small. -/
theorem abs_value_mul_le (past : e + maxScale < v.scale) :
    |v.value * 10 ^ e| * 10 ^ 29 ≤ maxCoefficient := by
  have magnitude : |(v.coefficient : ℚ)| ≤ maxCoefficient := by
    rw [← Int.cast_abs, Int.abs_eq_natAbs, Int.cast_natCast]
    exact_mod_cast v.natAbs_coefficient_le
  have power : (10 : ℚ) ^ (e - v.scale + 29) ≤ 1 := by
    refine zpow_le_one_of_nonpos₀ (by norm_num) ?_
    unfold maxScale at past
    omega
  calc |v.value * 10 ^ e| * 10 ^ 29
      = |(v.coefficient : ℚ)| * 10 ^ (e - v.scale + 29) := by
        rw [Amount.value_mul_zpow, abs_mul, abs_of_pos (power_pos _),
          zpow_add₀ (by norm_num), mul_assoc]
        norm_num
    _ ≤ |(v.coefficient : ℚ)| := mul_le_of_le_one_right (abs_nonneg _) power
    _ ≤ maxCoefficient := magnitude

/-- A product with a power of ten is off by half a unit of the last place at most. -/
theorem abs_sub_le_of_mul? (power : powerOfTen? e = some p) (h : v.mul? p = some r) :
    |r.value - v.value * 10 ^ e| ≤ 1 / (2 * 10 ^ 28) := by
  have rounds := roundsTo_of_mul?_power power h
  rcases le_or_gt (v.scale : ℤ) (e + maxScale) with within | past
  · rw [Amount.value_of_roundsTo rounds within, sub_self, abs_zero]
    positivity
  · have small := abs_value_mul_le past
    have nonneg := abs_nonneg (v.value * 10 ^ e)
    exact rounds.abs_sub_le (by linarith)

/-- A product with a power of ten is exact when it is a decimal. -/
theorem value_of_mul?_iff (power : powerOfTen? e = some p) (h : v.mul? p = some r) :
    r.value = v.value * 10 ^ e ↔ ∃ w : Decimal, w.value = v.value * 10 ^ e := by
  refine ⟨fun exact => ⟨r, exact⟩, ?_⟩
  rintro ⟨w, value_w⟩
  have rounds := roundsTo_of_mul?_power power h
  rw [← value_w] at rounds ⊢
  exact rounds.value_eq

/-- A product with a power of ten is small enough to be multiplied back. -/
theorem abs_value_back_le (power : powerOfTen? e = some p) (h : v.mul? p = some r) :
    |r.value * 10 ^ (-e)| ≤ maxCoefficient := by
  rcases le_or_gt (v.scale : ℤ) (e + maxScale) with within | past
  · rw [Amount.value_of_roundsTo (roundsTo_of_mul?_power power h) within, zpow_mul_zpow_neg]
    exact v.abs_value_le_maxCoefficient
  · -- the rounded product is a tenth of what is in range, and half a unit
    have range : e.natAbs ≤ maxScale := exists_powerOfTen?_iff.mp ⟨p, power⟩
    have back : (10 : ℚ) ^ (-e) ≤ 10 ^ (28 : ℤ) := by
      refine zpow_le_zpow_right₀ (by norm_num) ?_
      unfold maxScale at range
      omega
    have small := abs_value_mul_le past
    have rounded : |r.value| ≤ |v.value * 10 ^ e| + 1 / (2 * 10 ^ 28) := by
      have near := abs_sub_le_of_mul? power h
      have split := abs_sub_abs_le_abs_sub r.value (v.value * 10 ^ e)
      linarith
    have room : (10 : ℚ) ≤ maxCoefficient := by norm_num [maxCoefficient]
    calc |r.value * 10 ^ (-e)|
        = |r.value| * 10 ^ (-e) := by rw [abs_mul, abs_of_pos (power_pos (-e))]
      _ ≤ (|v.value * 10 ^ e| + 1 / (2 * 10 ^ 28)) * 10 ^ (28 : ℤ) :=
          mul_le_mul rounded back (power_pos (-e)).le (by positivity)
      _ = |v.value * 10 ^ e| * 10 ^ 29 / 10 + 1 / 2 := by
        rw [add_mul]
        ring
      _ ≤ maxCoefficient := by linarith

/-- A product with a power of ten can be multiplied back, which is exact. -/
theorem exists_mul?_back (power : powerOfTen? e = some p) (back : powerOfTen? (-e) = some q)
    (h : v.mul? p = some r) : ∃ d, r.mul? q = some d ∧ d.value = r.value * 10 ^ (-e) := by
  have fits := abs_value_back_le power h
  rw [← value_of_powerOfTen? back] at fits
  obtain ⟨d, product⟩ := exists_mul? fits
  refine ⟨d, product, ?_⟩
  have rounds := roundsTo_of_mul?_power back product
  rcases le_total 0 e with right | left
  · -- to the right the product was exact, so that the number it came from is a decimal
    have exact := Amount.value_of_roundsTo (roundsTo_of_mul?_power power h)
      (Amount.scale_le_add v right)
    rw [exact, zpow_mul_zpow_neg] at rounds ⊢
    exact rounds.value_eq
  · exact Amount.value_of_roundsTo rounds (Amount.scale_le_add r (by omega))

end Decimal

namespace Venue

open Decimal

variable {base quote e : Int} {p q : Decimal} {levels mapped : List Level} {b c : Book}

/-- A level against the same level after its size was multiplied with a power of ten and with the
inverse power. -/
structure Level.GivenBack (e : Int) (l l' : Level) : Prop where
  price_eq : l'.price = l.price
  size_iff : l'.size.SameValue l.size ↔ ∃ d : Decimal, d.value = l.size.value * 10 ^ e
  size_eq : 0 ≤ e → l'.size.SameValue l.size
  size_near : |l'.size.value - l.size.value| ≤ 10 ^ (-e) / (2 * 10 ^ 28)

/-- What multiplying back makes of a product. -/
theorem Level.givenBack_of_mul? {price v r d : Decimal} (power : powerOfTen? e = some p)
    (h : v.mul? p = some r) (value_d : d.value = r.value * 10 ^ (-e)) :
    GivenBack e ⟨price, v⟩ ⟨price, d⟩ := by
  have inverse := power_pos (-e)
  have size_iff : d.SameValue v ↔ r.value = v.value * 10 ^ e := by
    rw [sameValue_iff_value, value_d, ← mul_left_inj' inverse.ne' (a := r.value),
      zpow_mul_zpow_neg]
  refine ⟨rfl, size_iff.trans (value_of_mul?_iff power h), fun right => size_iff.mpr ?_, ?_⟩
  · exact Amount.value_of_roundsTo (roundsTo_of_mul?_power power h) (Amount.scale_le_add v right)
  · calc |d.value - v.value|
        = |r.value - v.value * 10 ^ e| * 10 ^ (-e) := by
          rw [value_d, ← abs_of_pos inverse, ← abs_mul, abs_of_pos inverse, sub_mul,
            zpow_mul_zpow_neg]
      _ ≤ 1 / (2 * 10 ^ 28) * 10 ^ (-e) :=
          mul_le_mul_of_nonneg_right (abs_sub_le_of_mul? power h) inverse.le
      _ = 10 ^ (-e) / (2 * 10 ^ 28) := by rw [div_mul_eq_mul_div, one_mul]

/-- The levels of a side can be multiplied back. -/
theorem Levels.exists_mapSizes?_back (power : powerOfTen? e = some p)
    (back : powerOfTen? (-e) = some q)
    (h : mapSizes? (fun l => l.size.mul? p) levels = some mapped) :
    ∃ given, mapSizes? (fun l => l.size.mul? q) mapped = some given ∧
      List.Forall₂ (Level.GivenBack e) levels given := by
  induction levels generalizing mapped with
  | nil =>
    obtain rfl := Option.some.inj h
    exact ⟨[], rfl, .nil⟩
  | cons l rest ih =>
    obtain ⟨r, product, h⟩ := Option.bind_eq_some_iff.mp h
    obtain ⟨mappedRest, rest_eq, h⟩ := Option.bind_eq_some_iff.mp h
    obtain rfl := Option.some.inj h
    obtain ⟨d, product', value_d⟩ := exists_mul?_back power back product
    obtain ⟨givenRest, rest_back, given⟩ := ih rest_eq
    have first : l.GivenBack e ⟨l.price, d⟩ := Level.givenBack_of_mul? power product value_d
    refine ⟨⟨l.price, d⟩ :: givenRest, ?_, .cons first given⟩
    simp [mapSizes?, product', rest_back]

namespace Book

/-- A rescaled book is rescaled side by side. -/
theorem rescale_eq_ok_iff : b.rescale base quote = .ok c ↔
    ∃ p q, powerOfTen? base = some p ∧ powerOfTen? quote = some q ∧ c.symbol = b.symbol ∧
      Levels.mapSizes? (fun l => l.size.mul? q) b.bids = some c.bids ∧
      Levels.mapSizes? (fun l => l.size.mul? p) b.asks = some c.asks := by
  unfold rescale
  rw [orError_eq_ok]
  simp only [mapSizes?, Option.bind_eq_bind, Option.bind_eq_some_iff, Option.some.injEq]
  constructor
  · rintro ⟨p, base_power, q, quote_power, bids, bids_eq, asks, asks_eq, rfl⟩
    exact ⟨p, q, base_power, quote_power, rfl, bids_eq, asks_eq⟩
  · rintro ⟨p, q, base_power, quote_power, symbol_eq, bids_eq, asks_eq⟩
    exact ⟨p, base_power, q, quote_power, _, bids_eq, _, asks_eq, by rw [← symbol_eq]⟩

theorem exists_powerOfTen?_neg (power : powerOfTen? e = some p) : ∃ q, powerOfTen? (-e) = some q :=
  exists_powerOfTen?_iff.mpr (by rw [Int.natAbs_neg]; exact exists_powerOfTen?_iff.mp ⟨p, power⟩)

/-- A book that can be rescaled can be rescaled back. It then has its prices in their places, and
every size whose product with the power of ten was a decimal, which those of an exponent that is not
negative are. Any other size is off by half a unit of the last place, multiplied back, at most. -/
theorem rescale_back (h : b.rescale base quote = .ok c) :
    ∃ d, c.rescale (-base) (-quote) = .ok d ∧ d.symbol = b.symbol ∧
      List.Forall₂ (Level.GivenBack quote) b.bids d.bids ∧
      List.Forall₂ (Level.GivenBack base) b.asks d.asks := by
  obtain ⟨p, q, base_power, quote_power, symbol_eq, bids_eq, asks_eq⟩ := rescale_eq_ok_iff.mp h
  obtain ⟨p', base_back⟩ := exists_powerOfTen?_neg base_power
  obtain ⟨q', quote_back⟩ := exists_powerOfTen?_neg quote_power
  obtain ⟨bids, bids_back, given_bids⟩ :=
    Levels.exists_mapSizes?_back quote_power quote_back bids_eq
  obtain ⟨asks, asks_back, given_asks⟩ := Levels.exists_mapSizes?_back base_power base_back asks_eq
  refine ⟨⟨b.symbol, bids, asks⟩, ?_, rfl, given_bids, given_asks⟩
  exact rescale_eq_ok_iff.mpr ⟨p', q', base_back, quote_back, symbol_eq.symm, bids_back, asks_back⟩

/-- A bid of three and an ask of one and a quarter. -/
def quarterBook : Book :=
  ⟨"BTCUSDC", [⟨.ofWord 59000 0, .ofWord 3 0⟩], [⟨.ofWord 60001 0, .ofWord 125 2⟩]⟩

/-- Three is given back as it is, and one and a quarter with an error of a half at most. -/
theorem rescale_back_of_quarterBook :
    ∃ c d, quarterBook.rescale (-28) 6 = .ok c ∧ c.rescale 28 (-6) = .ok d ∧
      List.Forall₂ (Level.GivenBack 6) quarterBook.bids d.bids ∧
      List.Forall₂ (Level.GivenBack (-28)) quarterBook.asks d.asks := by
  obtain ⟨c, rescaled, -⟩ := exists_eq_ok (x := quarterBook.rescale (-28) 6) (P := fun _ => True)
    (by decide +kernel)
  obtain ⟨d, back, -, bids, asks⟩ := rescale_back rescaled
  exact ⟨c, d, rescaled, back, bids, asks⟩

/-- One and a quarter, moved past the last place, is rounded to one unit there and comes back as
one, though the product is no decimal. -/
theorem rescale_loses :
    ∃ c d, quarterBook.rescale (-28) 0 = .ok c ∧ c.rescale 28 0 = .ok d ∧
      (∀ l ∈ quarterBook.asks, (∀ w : Decimal, w.value ≠ l.size.value * 10 ^ (-28 : ℤ)) ∧
        l.size.SameValue (.ofWord 125 2)) ∧
      d.depth .ask = 1 ∧ ∀ l ∈ d.asks, l.size.SameValue .one := by
  obtain ⟨c, d, rescaled, back, one⟩ := exists_both_eq_ok (x := quarterBook.rescale (-28) 0)
    (f := fun c => c.rescale 28 0)
    (P := fun _ d => d.depth .ask = 1 ∧ ∀ l ∈ d.asks, l.size.SameValue .one) (by decide +kernel)
  refine ⟨c, d, rescaled, back, ?_, one⟩
  simp only [quarterBook, List.forall_mem_singleton]
  refine ⟨fun w value_w => ?_, rfl⟩
  -- four such products would be five units, and a decimal is a whole number of units
  have quarter : (Decimal.ofWord 125 2).value = 5 / 4 := by
    have : (125 : UInt64).toNat = 125 := rfl
    norm_num [value, ofWord, coefficient, tenTo, this]
  have whole : (w.units : ℚ) * 4 = 5 := by
    rw [units_eq, value_w, quarter, unitsOfOne, tenTo_cast]
    norm_num [maxScale]
  have whole : w.units * 4 = 5 := by exact_mod_cast whole
  omega

end Book

end Venue

end CrossBook
