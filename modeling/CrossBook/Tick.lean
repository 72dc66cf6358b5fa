import CrossBook.Amount

/-!
# Ticks

On-chain prices lie on a grid of ticks: every decade of price is cut into nine million equal
steps. Chain prices are in native units, quote per base; human prices differ from them by a power
of ten that the decimals of the pair give.

## Main definitions

* `Tick.price` — the price of a tick
* `Tick.ofPrice` — the highest tick whose price is not above a price
* `Units` — the decimals of a pair, with `Units.toHumanPrice`, `Units.toChainPrice` and
  `Units.humanPriceOfTick`
-/

namespace CrossBook

namespace Tick

/-- The ticks of one decade of price. -/
def perDecade : Int := 9000000

/-- The exponent of the step between ticks from price one up to ten. -/
def unitExponent : Int := -6

/-- The lowest tick, at price `10 ^ (-12)`. -/
def lowest : Int := -108000000

/-- The highest tick, at price `10 ^ 27`. -/
def highest : Int := 243000000

/-- The ticks that have a price. -/
def InRange (t : Int) : Prop := lowest ≤ t ∧ t ≤ highest

instance (t : Int) : Decidable (InRange t) := inferInstanceAs (Decidable (_ ∧ _))

/-- The power of ten at which the decade of a tick starts, or ends when the tick is negative. -/
def decade (t : Int) : Int := t.tdiv perDecade

/-- The steps between a tick and the power of ten of its decade. -/
def steps (t : Int) : Int := t - decade t * perDecade

/-- The exponent of the step between neighbouring ticks. -/
def stepExponent (t : Int) : Int := unitExponent + decade t - if t < 0 then 1 else 0

/-- The price of a tick: the power of ten of its decade and as many steps as it is away. -/
def price (t : Int) : Except DomainError Decimal :=
  if InRange t then
    if t = 0 then .ok .one
    else orError (.precisionOverflow "converting tick price") <| do
      let start ← Decimal.powerOfTen? (decade t)
      let step ← Decimal.powerOfTen? (stepExponent t)
      let count ← Decimal.ofParts? (steps t) 0
      let offset ← count.mul? step
      start.add? offset
  else .error (.tickOutOfRange t)

/-- `10 ^ exponent` is a decimal and not above the price. -/
def reaches (price : Decimal) (exponent : Int) : Bool :=
  match Decimal.powerOfTen? exponent with
  | some p => p ≤ price
  | none => false

/-- `10 ^ exponent` is a decimal and above the price. -/
def exceeds (price : Decimal) (exponent : Int) : Bool :=
  match Decimal.powerOfTen? exponent with
  | some p => price < p
  | none => false

/-- The largest exponent up to the bound whose power of ten the price reaches, or zero. -/
def decadeAbove (price : Decimal) : Nat → Nat
  | 0 => 0
  | k + 1 => if reaches price (k + 1) then k + 1 else decadeAbove price k

/-- The largest negated exponent up to the bound whose power of ten is above the price, or zero. -/
def decadeBelow (price : Decimal) : Nat → Nat
  | 0 => 0
  | k + 1 => if exceeds price (-(k + 1)) then k + 1 else decadeBelow price k

/-- The exponent of the decade of a price and the exponent of its steps. -/
def decadeOfPrice (price : Decimal) : Int × Int :=
  if Decimal.one < price then
    let k := decadeAbove price Decimal.maxScale
    (k, unitExponent + k)
  else
    let k := decadeBelow price Decimal.maxScale
    (-k, unitExponent - k - 1)

/-- The highest tick whose price is not above the price. -/
def ofPrice (price : Decimal) : Except Failure Int :=
  let outOfRange : Failure := .ofDomain (.priceOutOfRange price)
  if price ≤ Decimal.zero then .error outOfRange
  else if price.SameValue .one then .ok 0
  else do
    let (decade, exponent) := decadeOfPrice price
    let start ← orError outOfRange (Decimal.powerOfTen? decade)
    let step ← orError outOfRange (Decimal.powerOfTen? exponent)
    let distance ← price.minus start
    let quotient ← orError outOfRange (distance.div? step)
    let steps ← orError outOfRange quotient.floor.toInt64?
    let tick := decade * perDecade + steps
    if InRange tick then .ok tick else .error outOfRange

end Tick

/-- The decimals of the two assets of a pair. -/
structure Units where
  base : Nat
  quote : Nat
deriving DecidableEq

namespace Units

/-- The power of ten between chain prices and human prices, when it is an exponent. -/
def exponent (u : Units) : Except Failure Int :=
  let e := Amount.exponentOfDecimals u.base - Amount.exponentOfDecimals u.quote
  if Amount.lowestExponent ≤ e ∧ e < twoTo 31 then .ok e else .error (.abort .wordSubtraction)

/-- The human price of a chain price. -/
def toHumanPrice (u : Units) (price : Decimal) : Except Failure Decimal := do
  let exponent ← u.exponent
  Amount.shift price exponent

/-- The chain price of a human price. -/
def toChainPrice (u : Units) (price : Decimal) : Except Failure Decimal := do
  let exponent ← u.exponent
  let exponent ← Amount.negated exponent
  Amount.shift price exponent

/-- The human price of a tick. -/
def humanPriceOfTick (u : Units) (tick : Int) : Except Failure Decimal := do
  let price ← Tick.price tick
  u.toHumanPrice price

end Units

end CrossBook
