import CrossBook.Decimal.Arithmetic
import CrossBook.Text.Digits
import CrossBook.Decimal.Text

/-!
# Double precision magnitudes

Finite magnitudes of the sixty-four bit binary format, rounding to them, and the shortest decimal
digits that read back as one.

## Main definitions

* `Binary64` — a magnitude `significand · 2 ^ exponent`
* `Binary64.nearest?` — the magnitude nearest to a quotient, none when it is too large
* `Binary64.scientific?` — a significand moved by a power of ten, rounding at each step
* `Binary64.shortest` — the fewest digits that read back, and their power of ten
-/

namespace CrossBook

/-- The finite magnitude `significand · 2 ^ exponent` of the double precision format. -/
structure Binary64 where
  significand : Nat
  exponent : Int
deriving DecidableEq

namespace Binary64

/-- The bits of a full significand. -/
def precision : Nat := 53

/-- The exponent of the smallest magnitudes. -/
def minExponent : Int := -1074

/-- Zero. -/
def zero : Binary64 := ⟨0, minExponent⟩

/-- `n / d` for a quotient `n / d · 2 ^ e`, without the power of two. -/
def shiftRatio (n d : Nat) (e : Int) : Nat × Nat :=
  if 0 ≤ e then (n * twoTo e.toNat, d) else (n, d * twoTo (-e).toNat)

/-- The value as a quotient. -/
def ratio (x : Binary64) : Nat × Nat := shiftRatio x.significand 1 x.exponent

/-- The exponent at which the quotient has a full significand, or the smallest. -/
def exponentOf (n d : Nat) : Int :=
  let guess : Int := (n.log2 : Int) - d.log2 - precision
  let (a, b) := shiftRatio n d (-guess)
  let e := if a / b < twoTo precision then guess else guess + 1
  if e < minExponent then minExponent else e

/-- The magnitude `m · 2 ^ e` with a significand that is not too long, for an `m` of at most
`2 ^ 53`: rounding up may reach that power of two, which is half as many of the next larger unit. -/
def carry (m : Nat) (e : Int) : Binary64 :=
  if m = twoTo precision then ⟨twoTo (precision - 1), e + 1⟩ else ⟨m, e⟩

/-- The magnitude nearest to `n / d`, a half to the even significand; none from `2 ^ 1024` on. -/
def nearest? (n d : Nat) : Option Binary64 :=
  if n = 0 then some zero
  else
    let e := exponentOf n d
    let (a, b) := shiftRatio n d (-e)
    let m := Decimal.divHalfEven a b
    let (top, unit) := shiftRatio m 1 e
    if top < twoTo 1024 * unit then some (carry m e) else none

/-- The largest power of ten a significand is moved by at once. -/
def stepLimit : Nat := 308

/-- The magnitude divided by a power of ten, rounded; too small a quotient is zero. -/
def divPowerOfTen (x : Binary64) (k : Nat) : Binary64 :=
  match nearest? (tenTo k) 1 with
  | none => zero
  | some p => (nearest? (x.ratio.1 * p.ratio.2) (x.ratio.2 * p.ratio.1)).getD zero

/-- The magnitude times a power of ten, rounded; none when it is too large. -/
def mulPowerOfTen? (x : Binary64) (k : Nat) : Option Binary64 :=
  match nearest? (tenTo k) 1 with
  | none => none
  | some p => nearest? (x.ratio.1 * p.ratio.1) (x.ratio.2 * p.ratio.2)

/-- The magnitude moved by a power of ten: by one rounded step, after as many steps of the largest
power downwards as it needs. Three of those leave nothing of any sixty-four bit significand. -/
def moveByTens? (x : Binary64) (k : Int) : Nat → Option Binary64
  | 0 => some zero
  | steps + 1 =>
    if x.significand = 0 then some zero
    else if stepLimit < k then none
    else if 0 ≤ k then x.mulPowerOfTen? k.toNat
    else if -stepLimit ≤ k then some (x.divPowerOfTen (-k).toNat)
    else (x.divPowerOfTen stepLimit).moveByTens? (k + stepLimit) steps

/-- A significand moved by a power of ten, the significand rounded first and the result after;
none when it is too large. -/
def scientific? (n : Nat) (k : Int) : Option Binary64 :=
  match nearest? n 1 with
  | none => none
  | some x => x.moveByTens? k 4

/-! ### Shortest digits -/

/-- The decimal `c · 10 ^ k` reads back as the magnitude: it lies between the midpoints to its
neighbours, and on one only if the significand is even. -/
def readsBack (x : Binary64) (c : Nat) (k : Int) : Bool :=
  let quarters := 4 * x.significand
  let below := if x.significand = twoTo (precision - 1) ∧ minExponent < x.exponent then 1 else 2
  let (cn, cd) := if 0 ≤ k then (c * tenTo k.toNat, 1) else (c, tenTo (-k).toNat)
  let (u, v) := shiftRatio 1 4 x.exponent
  let lo := (quarters - below) * u * cd
  let hi := (quarters + 2) * u * cd
  let c := cn * v
  if x.significand % 2 = 0 then lo ≤ c && c ≤ hi else lo < c && c < hi

/-- The whole number of `10 ^ k` at or below the magnitude. -/
def gridBelow (x : Binary64) (k : Int) : Nat :=
  let (n, d) := x.ratio
  if 0 ≤ k then n / (d * tenTo k.toNat) else n * tenTo (-k).toNat / d

/-- Of its two neighbours on the grid of `10 ^ k`, the magnitude takes the upper one: that one is
nearer, or both are as near. -/
def takesUpper (x : Binary64) (k : Int) : Bool :=
  let (n, d) := x.ratio
  let (n, d) := if 0 ≤ k then (n, d * tenTo k.toNat) else (n * tenTo (-k).toNat, d)
  d ≤ 2 * (n % d)

/-- A neighbour on the grid of `10 ^ k` that reads back: of two the nearer, of two as near the
upper. -/
def onGrid? (x : Binary64) (k : Int) : Option Nat :=
  let c := x.gridBelow k
  match decide (0 < c) && x.readsBack c k, x.readsBack (c + 1) k with
  | true, true => some (if x.takesUpper k then c + 1 else c)
  | true, false => some c
  | false, true => some (c + 1)
  | false, false => none

/-- The first grid from `10 ^ k` downwards with a number that reads back. -/
def searchGrid (x : Binary64) (k : Int) : Nat → Nat × Int
  | 0 => (x.gridBelow k, k)
  | steps + 1 =>
    match x.onGrid? k with
    | some c => (c, k)
    | none => x.searchGrid (k - 1) steps

/-- The fewest digits that read back as the magnitude, with their power of ten. Seventeen digits
always do, and the first grid searched is above the magnitude. -/
def shortest (x : Binary64) : Nat × Int :=
  if x.significand = 0 then (0, 0)
  else
    let (n, d) := x.ratio
    x.searchGrid ((Text.digits n).length - (Text.digits d).length + 1) 20

/-- The shortest digits written out without an exponent. -/
def chars (x : Binary64) : List Char :=
  let (c, k) := x.shortest
  if 0 ≤ k then Text.digits (c * tenTo k.toNat) else Decimal.magnitudeChars c (-k).toNat

example : (nearest? 1 10).map chars = some ['0', '.', '1'] := by decide +kernel

example : (scientific? 1 25).map shortest = some (1, 25) := by decide +kernel

end Binary64

end CrossBook
