import CrossBook.Power

/-!
# Decimals with a ninety-six bit coefficient

A decimal is a sign, a magnitude below `2 ^ 96` and a scale of at most twenty-eight places: its
value is `± magnitude · 10 ^ (-scale)`. Every value is therefore a whole number of units of
`10 ^ (-28)`, and order and equality by value are order and equality of those whole numbers. The
sign and the scale of a zero are kept, but only its text shows them.

## Main definitions

* `Decimal` — the representable numbers
* `Decimal.units` — the value, counted in units of `10 ^ (-28)`
* `Decimal.SameValue` — equality of values, whatever the scales
* `Decimal.trunc`, `floor`, `ceil`, `truncTo` — dropping places
-/

namespace CrossBook

/-- A signed number with at most twenty-eight decimal places and a ninety-six bit magnitude. -/
structure Decimal where
  isNegative : Bool
  magnitude : Nat
  scale : Nat
  magnitude_le : magnitude ≤ 79228162514264337593543950335
  scale_le : scale ≤ 28
deriving DecidableEq

namespace Decimal

/-- The largest magnitude, `2 ^ 96 - 1`. -/
def maxCoefficient : Nat := 79228162514264337593543950335

/-- The largest number of decimal places. -/
def maxScale : Nat := 28

theorem maxCoefficient_eq : maxCoefficient = twoTo 96 - 1 := by decide

/-- The magnitude with its sign. -/
def coefficient (d : Decimal) : Int := if d.isNegative then -(d.magnitude : Int) else d.magnitude

/-- The value counted in units of `10 ^ (-28)`. -/
def units (d : Decimal) : Int := d.coefficient * tenTo (maxScale - d.scale)

/-- The decimal with this sign, magnitude and scale, when both numbers are in range. -/
def ofSigned? (isNegative : Bool) (magnitude scale : Nat) : Option Decimal :=
  if h : magnitude ≤ maxCoefficient ∧ scale ≤ maxScale then
    some ⟨isNegative, magnitude, scale, h.1, h.2⟩
  else none

/-- The decimal with this coefficient and scale, when both are in range; no zero is negative. -/
def ofParts? (coefficient : Int) (scale : Nat) : Option Decimal :=
  ofSigned? (decide (coefficient < 0)) coefficient.natAbs scale

/-- Zero without decimal places. -/
def zero : Decimal := ⟨false, 0, 0, by decide, by decide⟩

/-- One without decimal places. -/
def one : Decimal := ⟨false, 1, 0, by decide, by decide⟩

instance : Inhabited Decimal := ⟨zero⟩

/-- A word of sixty-four bits with a number of decimal places, twenty-eight at most. -/
def ofWord (n : UInt64) (places : Nat) : Decimal :=
  ⟨false, n.toNat, Nat.min places 28, by have := n.toNat_lt; omega, Nat.min_le_right _ _⟩

/-- A whole number of at most sixty-four bits. -/
def ofUInt64 (n : UInt64) : Decimal := ofWord n 0

/-! ### Order by value -/

instance : LE Decimal := ⟨fun a b => a.units ≤ b.units⟩

instance : LT Decimal := ⟨fun a b => a.units < b.units⟩

instance (a b : Decimal) : Decidable (a ≤ b) := inferInstanceAs (Decidable (a.units ≤ b.units))

instance (a b : Decimal) : Decidable (a < b) := inferInstanceAs (Decidable (a.units < b.units))

theorem le_iff_units (a b : Decimal) : a ≤ b ↔ a.units ≤ b.units := Iff.rfl

theorem lt_iff_units (a b : Decimal) : a < b ↔ a.units < b.units := Iff.rfl

/-- Two decimals have the same value, though perhaps not the same scale. -/
def SameValue (a b : Decimal) : Prop := a.units = b.units

instance (a b : Decimal) : Decidable (a.SameValue b) :=
  inferInstanceAs (Decidable (a.units = b.units))

/-- The smaller of two decimals, the first when they have the same value. -/
def min (a b : Decimal) : Decimal := if a ≤ b then a else b

/-- The larger of two decimals, the first when they have the same value. -/
def max (a b : Decimal) : Decimal := if b ≤ a then a else b

theorem units_zero : zero.units = 0 := by decide

theorem natAbs_coefficient (d : Decimal) : d.coefficient.natAbs = d.magnitude := by
  unfold coefficient
  split <;> simp

theorem natAbs_coefficient_le (d : Decimal) : d.coefficient.natAbs ≤ maxCoefficient := by
  rw [natAbs_coefficient]
  exact d.magnitude_le

/-! ### Dropping places -/

/-- The whole part, towards zero. -/
def trunc (d : Decimal) : Decimal :=
  ⟨d.isNegative, d.magnitude / tenTo d.scale, 0,
    Nat.le_trans (Nat.div_le_self _ _) d.magnitude_le, by decide⟩

/-- The largest whole number that is not above the value. -/
def floor (d : Decimal) : Decimal :=
  ⟨d.isNegative, (d.coefficient / tenTo d.scale).natAbs, 0,
    Nat.le_trans (Int.natAbs_ediv_le_natAbs _ _) d.natAbs_coefficient_le, by decide⟩

/-- The smallest whole number that is not below the value. -/
def ceil (d : Decimal) : Decimal :=
  ⟨d.isNegative, (-d.coefficient / tenTo d.scale).natAbs, 0, by
    refine Nat.le_trans (Int.natAbs_ediv_le_natAbs _ _) ?_
    rw [Int.natAbs_neg]
    exact d.natAbs_coefficient_le, by decide⟩

/-- At most `places` decimal places, the others dropped. -/
def truncTo (d : Decimal) (places : Nat) : Decimal :=
  if h : places < d.scale then
    ⟨d.isNegative, d.magnitude / tenTo (d.scale - places), places,
      Nat.le_trans (Nat.div_le_self _ _) d.magnitude_le,
      Nat.le_trans (Nat.le_of_lt h) d.scale_le⟩
  else d

/-- The whole part, when it fits a signed sixty-four bit word. -/
def toInt64? (d : Decimal) : Option Int :=
  let n := d.trunc.coefficient
  if -twoTo 63 ≤ n ∧ n < twoTo 63 then some n else none

/-- The whole part, when it fits an unsigned sixty-four bit word. -/
def toUInt64? (d : Decimal) : Option UInt64 :=
  let n := d.trunc.coefficient
  if 0 ≤ n ∧ n < twoTo 64 then some (UInt64.ofNat n.toNat) else none

end Decimal

end CrossBook
