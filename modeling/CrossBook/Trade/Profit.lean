import CrossBook.Trade.Plan

/-!
# Profit and cost

What a plan earns, given the simulated outcome of its swap, and what it costs: gas on the chain and
the venue's fee. All values are in dollars.

## Main definitions

* `Trade.CostModel` — fees and tolerances
* `Trade.PriceSheet`, `Trade.SwapSimulation` — what a plan is judged by
* `Trade.Assessment` — profit and costs of a plan
* `Trade.CostModel.assess` — the assessment of a plan
-/

namespace CrossBook.Trade

/-- Dollar prices of base, quote and the asset fees are paid in. -/
structure PriceSheet where
  base : Decimal
  quote : Decimal
  fee : Decimal
deriving DecidableEq

/-- The expected outcome of a swap. -/
structure SwapSimulation where
  expectedOut : Decimal
  gasEstimate : UInt64
deriving DecidableEq

/-- Fees and tolerances that a plan is judged by. -/
structure CostModel where
  slippageTolerance : Decimal
  takerFeeBps : Decimal
  gasPrice : Decimal
  gasAdjustment : Decimal
  feeDecimals : Nat
deriving DecidableEq

/-- Profit and costs of a plan, with the least output and the gas its swap is sent with. -/
structure Assessment where
  profit : Decimal
  gasCost : Decimal
  venueFee : Decimal
  minOut : Decimal
  gasLimit : UInt64
deriving DecidableEq

namespace Assessment

/-- Gas and the venue's fee together. -/
def cost (a : Assessment) : Except Failure Decimal := a.gasCost.plus a.venueFee

/-- The profit covers the cost. -/
def isProfitable (a : Assessment) : Except Failure Bool := do
  let cost ← a.cost
  .ok (decide (cost ≤ a.profit))

end Assessment

namespace CostModel

/-- The error of values that leave the decimals while a plan is assessed. -/
def assessOverflow : Failure := .ofDomain (.precisionOverflow "assessing profitability")

/-- The output that is still accepted: the expected one less the tolerance, in whole units. -/
def minOut (m : CostModel) (s : SwapSimulation) : Except Failure Decimal := do
  let share ← Decimal.one.minus m.slippageTolerance
  let out ← orError assessOverflow (s.expectedOut.mul? share)
  .ok out.trunc

/-- What the plan earns. A plan that sells on the chain gets quote back for what it spent; one that
buys on the chain keeps the spread in quote and the drift of the base it bought back. -/
def profit (u : Units) (p : Plan) (prices : PriceSheet) (minOut : Decimal) :
    Except Failure Decimal :=
  match p.direction with
  | .chainBid => do
    let gain ← minOut.minus p.quote
    let human ← Amount.toHuman gain u.quote
    human.times prices.quote
  | .venueBid => do
    let kept ← p.quote.minus p.chainQuote
    let spread ← Amount.toHuman kept u.quote
    let surplus ← minOut.minus p.base
    let drift ← Amount.toHuman surplus u.base
    let spreadValue ← spread.times prices.quote
    let driftValue ← drift.times prices.base
    spreadValue.plus driftValue

/-- The gas a swap is sent with: the estimate adjusted, rounded up. A negative amount is none, even
where it rounds up to zero. -/
def gasLimit (m : CostModel) (s : SwapSimulation) : Except Failure UInt64 := do
  let adjusted ← (Decimal.ofUInt64 s.gasEstimate).times m.gasAdjustment
  if adjusted < Decimal.zero then .error assessOverflow
  else orError assessOverflow adjusted.ceil.toUInt64?

/-- The value of an amount of gas. -/
def gasCost (m : CostModel) (prices : PriceSheet) (gasLimit : UInt64) :
    Except Failure Decimal := do
  let fee ← (Decimal.ofUInt64 gasLimit).times m.gasPrice
  let human ← Amount.toHuman fee m.feeDecimals
  human.times prices.fee

/-- The value of the venue's fee on a plan. -/
def venueFee (m : CostModel) (u : Units) (p : Plan) (prices : PriceSheet) :
    Except Failure Decimal := do
  let human ← Amount.toHuman p.quote u.quote
  let notional ← human.times prices.quote
  let scaled ← notional.times m.takerFeeBps
  scaled.dividedBy basisPoints

/-- The assessment of a plan whose swap was simulated. -/
def assess (m : CostModel) (u : Units) (p : Plan) (s : SwapSimulation) (prices : PriceSheet) :
    Except Failure Assessment := do
  let minOut ← m.minOut s
  let profit ← profit u p prices minOut
  let gasLimit ← m.gasLimit s
  let gasCost ← m.gasCost prices gasLimit
  let venueFee ← m.venueFee u p prices
  .ok ⟨profit, gasCost, venueFee, minOut, gasLimit⟩

end CostModel

end CrossBook.Trade
