import CrossBook.Failure
import CrossBook.Text.Blank

/-!
# Amounts

Amounts are counted in whole native units on the chain and in human units on the venue; the two
differ by a power of ten, whose exponent is a word of thirty-two bits with a sign.

## Main definitions

* `Amount.negated` — an exponent with the other sign
* `Amount.shift` — an amount times a power of ten
* `Amount.toNative`, `Amount.toHuman` — between human and native units
* `Amount.parse` — an amount as a feed writes it
-/

namespace CrossBook.Amount

/-- The error of a shift without a representable result. -/
def shiftOverflow : Failure := .ofDomain (.precisionOverflow "shifting decimal places")

/-- The lowest exponent. -/
def lowestExponent : Int := -twoTo 31

/-- The exponent with the other sign; the lowest one has no counterpart. -/
def negated (exponent : Int) : Except Failure Int :=
  if exponent = lowestExponent then .error (.abort .wordNegation) else .ok (-exponent)

/-- The value times `10 ^ exponent`: a product with a power of ten, or a quotient by one. -/
def shift (value : Decimal) (exponent : Int) : Except Failure Decimal :=
  if 0 ≤ exponent then
    orError shiftOverflow ((Decimal.powerOfTen? exponent).bind fun p => value.mul? p)
  else do
    let places ← negated exponent
    orError shiftOverflow ((Decimal.powerOfTen? places).bind fun p => value.div? p)

/-- A number of decimals as an exponent: a thirty-two bit word read with its sign. -/
def exponentOfDecimals (decimals : Nat) : Int := (decimals : Int).bmod (twoTo 32)

/-- Whole native units of a human amount, the rest dropped. -/
def toNative (human : Decimal) (decimals : Nat) : Except Failure Decimal := do
  let native ← shift human (exponentOfDecimals decimals)
  .ok native.trunc

/-- The human amount of native units. -/
def toHuman (native : Decimal) (decimals : Nat) : Except Failure Decimal := do
  let exponent ← negated (exponentOfDecimals decimals)
  shift native exponent

/-- The amount a text stands for, white space around it aside; the error quotes the whole text. -/
def parse (text : String) : Except DomainError Decimal :=
  orError (.invalidDecimal text) (Decimal.ofText? (Text.trim text))

end CrossBook.Amount
