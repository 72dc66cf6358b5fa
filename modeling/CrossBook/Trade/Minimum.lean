import CrossBook.Amount

/-!
# Minimum fills

A fill has to reach a minimum: one that is given, or the base that is worth a least notional value.

## Main definitions

* `Trade.minimumOfNotional` — whole base units worth the notional
* `Trade.meets` — a fill reaches a minimum
-/

namespace CrossBook.Trade

/-- The error of a notional value without a representable amount of base. -/
def minimumOverflow : Failure := .ofDomain (.precisionOverflow "computing minimum fill")

/-- The base worth the notional value at a price, in whole native units rounded up. -/
def minimumOfNotional (notional usdPrice : Decimal) (decimals : Nat) :
    Except Failure Decimal :=
  if usdPrice ≤ Decimal.zero then .error (.ofDomain (.invalidDecimal usdPrice.text))
  else do
    let human ← orError minimumOverflow (notional.div? usdPrice)
    let native ← Amount.shift human (Amount.exponentOfDecimals decimals)
    .ok native.ceil

/-- The fill is not below the minimum. -/
def meets (fill minimum : Decimal) : Bool := minimum ≤ fill

end CrossBook.Trade
