import CrossBook.Decimal.Basic

/-!
# Arithmetic of decimals, rounded once

Every operation takes the exact result and rounds it once: to the largest number of places,
twenty-eight at most, at which the truncated result still has a ninety-six bit coefficient. A half
goes to the even neighbour. A result that fits at no scale has no answer.

## Main definitions

* `Decimal.divHalfEven` — a quotient rounded to the nearest whole number
* `Decimal.fittingScale?` — the scale a result is rounded at
* `Decimal.ofRatio?` — the decimal nearest to a quotient
* `Decimal.add?`, `sub?`, `mul?`, `div?` — the operations
* `Decimal.powerOfTen?` — the representable powers of ten
-/

namespace CrossBook.Decimal

/-- The quotient rounded to the nearest whole number, a half to the even neighbour. -/
def divHalfEven (n d : Nat) : Nat :=
  let q := n / d
  let r := n % d
  if 2 * r < d then q else if d < 2 * r then q + 1 else q + q % 2

/-- The largest scale up to the given one at which `n / d` fits once its other places are
dropped. -/
def fittingScale? (n d : Nat) : Nat → Option Nat
  | 0 => if n / d ≤ maxCoefficient then some 0 else none
  | s + 1 => if n * tenTo (s + 1) / d ≤ maxCoefficient then some (s + 1) else fittingScale? n d s

/-- The magnitude `n / d` rounded at a scale, as a coefficient and a scale. Rounding may reach
`2 ^ 96`; one place less then holds it. -/
def roundedAt? (n d s : Nat) : Option (Nat × Nat) :=
  let m := divHalfEven (n * tenTo s) d
  if m ≤ maxCoefficient then some (m, s)
  -- only `2 ^ 96` itself comes here, and is rounded once more
  else match s with
    | 0 => none
    | s + 1 => some (divHalfEven m 10, s)

/-- The magnitude `n / d` as a coefficient and a scale. -/
def roundedParts? (n d : Nat) : Option (Nat × Nat) :=
  (fittingScale? n d maxScale).bind (roundedAt? n d)

/-- The decimal nearest to `num / den`, for a positive `den`. -/
def ofRatio? (num : Int) (den : Nat) : Option Decimal :=
  (roundedParts? num.natAbs den).bind fun p => ofParts? (if num < 0 then -p.1 else p.1) p.2

/-- One, counted in units. -/
def unitsOfOne : Nat := tenTo maxScale

/-- The sum. -/
def add? (a b : Decimal) : Option Decimal := ofRatio? (a.units + b.units) unitsOfOne

/-- The difference. -/
def sub? (a b : Decimal) : Option Decimal := ofRatio? (a.units - b.units) unitsOfOne

/-- The product. -/
def mul? (a b : Decimal) : Option Decimal :=
  ofRatio? (a.units * b.units) (unitsOfOne * unitsOfOne)

/-- The quotient; none by zero. -/
def div? (a b : Decimal) : Option Decimal :=
  if b.units = 0 then none else ofRatio? (a.units * b.units.sign) b.units.natAbs

/-- The power of ten with this exponent, when it is a decimal. -/
def powerOfTen? (exponent : Int) : Option Decimal :=
  if maxScale < exponent.natAbs then none
  else if 0 ≤ exponent then ofParts? (tenTo exponent.toNat) 0
  else ofParts? 1 exponent.natAbs

example : divHalfEven 25 10 = 2 ∧ divHalfEven 35 10 = 4 ∧ divHalfEven 26 10 = 3 := by decide

end CrossBook.Decimal
