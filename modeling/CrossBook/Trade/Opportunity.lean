import CrossBook.Chain.RestingBook
import CrossBook.Tick
import CrossBook.Venue.Book

/-!
# Opportunities

The books of the venue and the chain cross when a bid on one stands above an ask on the other. The
crossing is an opportunity when it is deep enough, measured in ten-thousandths of the bid.

## Main definitions

* `Trade.Direction` — which of the two books has the bid
* `Trade.deviationBps` — the depth of a crossing
* `Trade.Opportunity.ofPrices` — an opportunity between a bid and an ask
* `Trade.Opportunity.between` — an opportunity between two books
-/

namespace CrossBook.Trade

/-- Which book has the higher bid. -/
inductive Direction where
  /-- The bid is on the chain and the ask on the venue. -/
  | chainBid
  /-- The bid is on the venue and the ask on the chain. -/
  | venueBid
deriving DecidableEq

namespace Direction

/-- The name of a direction. -/
def name : Direction → String
  | chainBid => "chain-bid-over-venue-ask"
  | venueBid => "venue-bid-over-chain-ask"

/-- The side of the chain's book that is traded against. -/
def chainSide : Direction → Side
  | chainBid => .bid
  | venueBid => .ask

/-- The side of the venue's book that is traded against. -/
def venueSide (d : Direction) : Side := d.chainSide.opposite

/-- A chain price and a venue price cross, or meet. -/
def Crosses (d : Direction) (chain venue : Decimal) : Prop :=
  match d with
  | chainBid => venue ≤ chain
  | venueBid => chain ≤ venue

instance (d : Direction) (chain venue : Decimal) : Decidable (d.Crosses chain venue) := by
  unfold Crosses
  cases d <;> exact inferInstance

end Direction

/-- Ten thousand, the hundredths of a percent in one. -/
def basisPoints : Decimal := .ofUInt64 10000

/-- A crossing of the two books. -/
structure Opportunity where
  direction : Direction
  bid : Decimal
  ask : Decimal
  deviation : Decimal
deriving DecidableEq

/-- How far the ask lies under the bid, in ten-thousandths of the bid; none without a
representable value. -/
def deviationBps (bid ask : Decimal) : Except Failure (Option Decimal) :=
  match ask.div? bid with
  | none => .ok none
  | some ratio => do
    let gap ← Decimal.one.minus ratio
    .ok (gap.mul? basisPoints)

namespace Opportunity

/-- The opportunity between a bid and an ask: the bid is positive and above the ask, and the
deviation is not below the floor. -/
def ofPrices (floor : Decimal) (direction : Direction) (bid ask : Decimal) :
    Except Failure (Option Opportunity) :=
  if bid ≤ Decimal.zero ∨ bid ≤ ask then .ok none
  else do
    match ← deviationBps bid ask with
    | none => .ok none
    | some d => .ok (if floor ≤ d then some ⟨direction, bid, ask, d⟩ else none)

/-- The opportunity between prices that may be missing. -/
def ofPrices? (floor : Decimal) (direction : Direction) (bid ask : Option Decimal) :
    Except Failure (Option Opportunity) :=
  match bid, ask with
  | some bid, some ask => ofPrices floor direction bid ask
  | _, _ => .ok none

/-- The human price of an order that may be missing. -/
def humanPrice? (u : Units) : Option Chain.Order → Except Failure (Option Decimal)
  | none => .ok none
  | some o => (u.humanPriceOfTick o.tick).map some

/-- The opportunity between the best prices of two books: the chain's bid over the venue's ask
first, then the venue's bid over the chain's ask. -/
def between (floor : Decimal) (u : Units) (venue : Venue.Book) (chain : Chain.RestingBook) :
    Except Failure (Option Opportunity) := do
  let chainBid ← humanPrice? u chain.bestBid
  match ← ofPrices? floor .chainBid chainBid (venue.bestAsk.map (·.price)) with
  | some o => .ok (some o)
  | none =>
    let chainAsk ← humanPrice? u chain.bestAsk
    ofPrices? floor .venueBid (venue.bestBid.map (·.price)) chainAsk

end Opportunity

end CrossBook.Trade
