import CrossBook.Trade.Plan

/-!
# Funding

A plan is cut down to what the accounts hold of the assets it spends, in whole native units.

## Main definitions

* `Trade.Plan.fund` — the plan the balances can pay for
-/

namespace CrossBook.Trade

/-- At most what is available. -/
def clamp (amount available : Decimal) : Decimal := amount.min available

/-- The amount in the other asset, or nothing when it has none. -/
def orZero (d : Option Decimal) : Decimal := d.getD .zero

namespace Plan

/-- The whole base and quote that stay under both caps at the price: the quote is capped when it
buys less base than the cap on base, else the base is. -/
def capped (price baseCap quoteCap : Decimal) : Decimal × Decimal :=
  -- a quotient that is no decimal counts as zero base
  if orZero (quoteCap.div? price) < baseCap then
    let quote := quoteCap.trunc
    ((orZero (quote.div? price)).trunc, quote)
  else
    let base := baseCap.trunc
    (base, (orZero (base.mul? price)).trunc)

/-- The plan cut down to what is available; balances below zero count as nothing. -/
def fund (p : Plan) (baseAvailable quoteAvailable : Decimal) : Except Failure Plan :=
  match p.price? with
  | none => p.resize .zero .zero
  | some price =>
    let baseCap := clamp p.base (baseAvailable.max .zero)
    let quoteCap := clamp p.quote (quoteAvailable.max .zero)
    let (base, quote) := capped price baseCap quoteCap
    -- the derived amount may have been rounded up past its cap
    p.resize (base.min baseCap) (quote.min quoteCap)

end Plan

end CrossBook.Trade
