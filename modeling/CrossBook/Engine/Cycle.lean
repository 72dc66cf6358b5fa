import CrossBook.Engine.Legs
import CrossBook.Engine.Listing
import CrossBook.Settings.Basic
import CrossBook.Trade.Funding
import CrossBook.Trade.Minimum
import CrossBook.Trade.Walk

/-!
# The cycle of a pair

Once per block each pair looks for an opportunity and takes it: it fetches balances, compares the
two books, sizes and funds a plan, fetches prices, simulates the swap, weighs profit against cost,
sends both legs, claims what the swap filled, and rests for some blocks. Whatever does not pay ends
the cycle early, and so does an error. An error that says that the state cannot be unwinds.

## Main definitions

* `Engine.Trader` — a listed pair with the settings it is traded by
* `Engine.Outcome` — how a cycle ends
* `Engine.Trader.prospect`, `shortfall`, `verdict` — the decisions on the way
* `Engine.Trader.cycle` — the cycle
-/

namespace CrossBook.Engine

open Text Trade

/-- A listed pair, the settings it is traded by, and the number of its ledger. -/
structure Trader where
  ledger : Nat
  listing : Listing
  settings : Settings

/-- Why a cycle ended without a trade. -/
inductive SkipReason where
  | noOpportunity
  | noFill
  | insufficientBalance
  | belowMinimum (fill minimum : Decimal)
  | unprofitable (profit cost : Decimal)
deriving DecidableEq

/-- What became of the claims of a cycle. -/
inductive ClaimFlush where
  | nothing
  | submitted (count : Nat) (hash : String)
  | failed (count : Nat) (error : String)
deriving DecidableEq

/-- A trade that was sent, with what became of it. -/
structure Execution where
  plan : Plan
  legs : Legs
  claims : ClaimFlush
  cooldownUntil : Nat
deriving DecidableEq

/-- How a cycle ends. -/
inductive Outcome where
  | coolingDown (blocked : Nat)
  | skipped (reason : SkipReason)
  | aborted (severity : Severity) (reason : String)
  | executed (e : Execution)
deriving DecidableEq

/-- The end of a cycle that may unwind. -/
abbrev Ending := Except Abort Outcome

/-- Balances of a pair on both sides, in native units. -/
structure Balances where
  venueBase : Decimal
  venueQuote : Decimal
  chainBase : Decimal
  chainQuote : Decimal
deriving DecidableEq

/-- The balances of base and quote that a direction spends. -/
def Balances.funding (b : Balances) : Direction → Decimal × Decimal
  | .chainBid => (b.chainBase, b.venueQuote)
  | .venueBid => (b.venueBase, b.chainQuote)

/-- What the two books offer. -/
inductive Prospect where
  | noOpportunity
  | noFill
  | funded (p : Plan)
deriving DecidableEq

/-- Whether a plan is worth its cost, and what is sent when it is. -/
inductive Verdict where
  | unprofitable (profit cost : Decimal)
  | trade (order : MarketOrder) (swap : SwapRequest)
deriving DecidableEq

namespace Trader

/-- The display name of the pair. -/
def name (t : Trader) : String := t.listing.pair.name

/-! ### Decisions -/

/-- The amount of a denomination among coins. -/
def amountOf (denom : String) (coins : List Coin) : Decimal :=
  match coins.find? fun c => c.denom = denom with
  | some c => c.amount
  | none => .zero

/-- The balances of the pair; what is not mentioned is nothing. -/
def balances (t : Trader) (venue : Table String Decimal) (coins : List Coin) :
    Except Failure Balances := do
  let p := t.listing.pair
  let venueBase ← Amount.toNative ((venue.get? p.base.symbol).getD .zero) t.listing.units.base
  let venueQuote ← Amount.toNative ((venue.get? p.quote.symbol).getD .zero) t.listing.units.quote
  .ok ⟨venueBase, venueQuote, amountOf p.base.denom coins, amountOf p.quote.denom coins⟩

/-- The venue's book in native units, with bids in quote. -/
def nativeBook (t : Trader) (b : Venue.Book) : Except DomainError Venue.Book := do
  let restated ← b.restateBidsInQuote
  restated.rescale (Amount.exponentOfDecimals t.listing.units.base)
    (Amount.exponentOfDecimals t.listing.units.quote)

/-- The plan that matches the two books in a direction. -/
def sized (t : Trader) (d : Direction) (native : Venue.Book) (resting : Chain.RestingBook) :
    Except Failure Plan :=
  match d with
  | .chainBid => Plan.size t.listing.units d native.asksAscending resting.bids
  | .venueBid => Plan.size t.listing.units d native.bidsDescending resting.asks

/-- What the two books offer, given what the accounts hold. -/
def prospect (t : Trader) (s : Stores) (venue : Table String Decimal) (coins : List Coin) :
    Except Failure Prospect := do
  let balances ← t.balances venue coins
  let symbol := t.listing.pair.venueSymbol
  let pool := t.listing.address.pool
  let book ← orError (.error (.bookUnavailable symbol)) (s.shelf.get? symbol)
  let resting ← orError (.error (.snapshotUnavailable pool)) (s.pools.get? pool)
  match ← Opportunity.between t.settings.trade.minDeviationBps t.listing.units book resting with
  | none => .ok .noOpportunity
  | some o =>
    let native ← t.nativeBook book
    let plan ← t.sized o.direction native resting
    if plan.IsEmpty then .ok .noFill
    else
      let (base, quote) := balances.funding o.direction
      let plan ← plan.fund base quote
      .ok (.funded plan)

/-- The least base the plan has to have. -/
def minimumBase (t : Trader) (prices : PriceSheet) : Except Failure Decimal :=
  match t.listing.minBase with
  | some m => .ok m
  | none => minimumOfNotional t.settings.trade.minFillNotional prices.base t.listing.units.base

/-- The amount of a plan that is below its minimum, with that minimum. Only an order that buys on
the venue spends quote there. -/
def shortfall (t : Trader) (p : Plan) (prices : PriceSheet) :
    Except Failure (Option (Decimal × Decimal)) := do
  let minimum ← t.minimumBase prices
  if ¬ meets p.base minimum then .ok (some (p.base, minimum))
  else match p.direction, t.listing.minQuote with
    | .chainBid, some m => .ok (if meets p.quote m then none else some (p.quote, m))
    | _, _ => .ok none

/-- What the swap of a plan spends, and the denomination it returns. -/
def swapLeg (t : Trader) (p : Plan) : Coin × String :=
  let base := t.listing.pair.base.denom
  let quote := t.listing.pair.quote.denom
  match p.direction with
  | .chainBid => (⟨base, p.base⟩, quote)
  | .venueBid => (⟨quote, p.chainQuote⟩, base)

/-- A quantity with at most the decimal places the venue takes. -/
def withPlaces (places : Option Nat) (quantity : Decimal) : Decimal :=
  match places with
  | some n => quantity.truncTo n
  | none => quantity

/-- The venue order of a plan. -/
def venueOrder (t : Trader) (p : Plan) : Except Failure MarketOrder :=
  let symbol := t.listing.pair.venueSymbol
  match p.direction with
  | .chainBid => do
    let quantity ← Amount.toHuman p.quote t.listing.units.quote
    .ok ⟨symbol, .buy, withPlaces t.listing.quotePlaces quantity⟩
  | .venueBid => do
    let quantity ← Amount.toHuman p.base t.listing.units.base
    .ok ⟨symbol, .sell, withPlaces t.listing.basePlaces quantity⟩

/-- Whether a plan is worth its cost, given the simulated outcome of its swap. -/
def verdict (t : Trader) (p : Plan) (prices : PriceSheet) (simulation : SwapSimulation) :
    Except Failure Verdict := do
  let a ← t.settings.costModel.assess t.listing.units p simulation prices
  let cost ← a.cost
  if cost ≤ a.profit then
    let order ← t.venueOrder p
    let (coinIn, denomOut) := t.swapLeg p
    .ok (.trade order ⟨coinIn, denomOut, a.minOut, a.gasLimit⟩)
  else .ok (.unprofitable a.profit cost)

/-- The height until which the pair rests after a trade, when it is a word of sixty-four bits. -/
def cooldownUntil (t : Trader) (height : Nat) : Except Failure Nat :=
  let until_ := height + t.settings.trade.cooldownBlocks
  if until_ < twoTo 64 then .ok until_ else .error (.abort .wordAddition)

/-- What became of the venue's leg. -/
def venueLeg : Except Error String → LegOutcome
  | .ok order => .filled order
  | .error e => .failed e.message

/-- What became of the chain's leg. -/
def chainLeg : Except Error Receipt → LegOutcome
  | .ok r =>
    if r.isSuccess then .filled r.hash
    else .failed (ExecutionError.transactionFailed r.code r.log).message
  | .error e => .failed e.message

/-- What became of some claims. -/
def flushed (count : Nat) : Except Error Receipt → ClaimFlush
  | .ok r => if r.isSuccess then .submitted count r.hash else .failed count r.log
  | .error e => .failed count e.message

/-! ### The cycle -/

/-- Ends the cycle without a trade, and drops the claims it collected. -/
def finish (t : Trader) (o : Outcome) {n : Nat} : Program Ending n :=
  .change (·.modifyLedger t.ledger Ledger.discard) (.done (.ok o))

/-- Ends the cycle with a failure. An error that says that the state cannot be unwinds like an
abort, with the claims still in the ledger. -/
def fail (t : Trader) (height : Nat) {n : Nat} : Failure → Program Ending n
  | .abort a => .done (.error a)
  | .error e =>
    if e.severity = .invalidState then
      .done (.error (.invalidState
        (t.name ++ ": invalid state at height " ++ writeNat height ++ ": " ++ e.message)))
    else t.finish (.aborted e.severity e.message)

/-- Rests after a trade. -/
def close (t : Trader) (height : Nat) (p : Plan) (legs : Legs) (claims : ClaimFlush) {n : Nat} :
    Program Ending n :=
  match t.cooldownUntil height with
  | .error f => t.fail height f
  | .ok cooldown =>
    .change (·.rest t.name cooldown) (.done (.ok (.executed ⟨p, legs, claims, cooldown⟩)))

/-- Claims what the ledger holds. -/
def claim (t : Trader) (height : Nat) (p : Plan) (legs : Legs) : Program Ending 1 :=
  .look fun s =>
    let claims := (s.ledger t.ledger).claims
    -- drained before the call, so no failure of it leaves claims behind
    .change (·.modifyLedger t.ledger fun l => l.drain.2) <|
      if claims.isEmpty then t.close height p legs .nothing
      else .call (.execute t.listing.address.contract (batchText claims)) fun r =>
        t.close height p legs (flushed claims.length r)

/-- Sends both legs. -/
def send (t : Trader) (height : Nat) (p : Plan) (order : MarketOrder) (swap : SwapRequest) :
    Program Ending 2 :=
  .ask [.placeOrder order, .swap swap] .untilAll fun
    | .cons venue (.cons chain .nil) => t.claim height p ⟨venueLeg venue, chainLeg chain⟩

/-- Acts on a verdict. -/
def act (t : Trader) (height : Nat) (p : Plan) : Except Failure Verdict → Program Ending 2
  | .error f => t.fail height f
  | .ok (.unprofitable profit cost) => t.finish (.skipped (.unprofitable profit cost))
  | .ok (.trade order swap) => t.send height p order swap

/-- Weighs profit against cost. -/
def weigh (t : Trader) (height : Nat) (p : Plan) (prices : PriceSheet)
    (simulation : SwapSimulation) : Program Ending 2 :=
  t.act height p (t.verdict p prices simulation)

/-- Simulates the swap of a plan that has no shortfall. -/
def simulateUnless (t : Trader) (height : Nat) (p : Plan) (prices : PriceSheet) :
    Except Failure (Option (Decimal × Decimal)) → Program Ending 3
  | .error f => t.fail height f
  | .ok (some (fill, minimum)) => t.finish (.skipped (.belowMinimum fill minimum))
  | .ok none =>
    .call (.simulate (t.swapLeg p).1 (t.swapLeg p).2) fun
      | .error e => t.fail height (.error e)
      | .ok simulation => t.weigh height p prices simulation

/-- Simulates the swap of a plan that reaches its minimums. -/
def simulate (t : Trader) (height : Nat) (p : Plan) (prices : PriceSheet) : Program Ending 3 :=
  t.simulateUnless height p prices (t.shortfall p prices)

/-- The call for the dollar price of a denomination. -/
def priceCall (t : Trader) (denom : String) : Call := .price denom t.settings.chain.usdDenom

/-- Fetches the prices a plan is weighed by. -/
def fetchPrices (t : Trader) (height : Nat) (p : Plan) : Program Ending 4 :=
  let pair := t.listing.pair
  .ask [t.priceCall pair.base.denom, t.priceCall pair.quote.denom,
    t.priceCall t.settings.chain.feeDenom] .untilFailure fun
    | .error e => t.fail height (.error e)
    | .ok (.cons base (.cons quote (.cons fee .nil))) => t.simulate height p ⟨base, quote, fee⟩

/-- Takes up what the two books offer, and collects the claims of the plan. -/
def takeUp (t : Trader) (height : Nat) : Except Failure Prospect → Program Ending 4
  | .error f => t.fail height f
  | .ok .noOpportunity => t.finish (.skipped .noOpportunity)
  | .ok .noFill => t.finish (.skipped .noFill)
  | .ok (.funded p) =>
    -- recorded before anything else can fail; every later exit drops them or sends them
    .change (·.modifyLedger t.ledger fun l => l.record p.claims) <|
      if p.IsEmpty then t.finish (.skipped .insufficientBalance) else t.fetchPrices height p

/-- Compares the two books. -/
def compare (t : Trader) (height : Nat) (venue : Table String Decimal) (coins : List Coin) :
    Program Ending 4 :=
  .look fun s => t.takeUp height (t.prospect s venue coins)

/-- The cycle of a pair at a height. -/
def cycle (t : Trader) (height : Nat) : Program Ending 5 :=
  .look fun s =>
    match s.cooldowns.blockedUntil t.name height with
    | some blocked => t.finish (.coolingDown blocked)
    | none =>
      .ask [.venueBalances, .chainBalances t.settings.chain.accountAddress] .untilFailure fun
        | .error e => t.fail height (.error e)
        | .ok (.cons venue (.cons coins .nil)) => t.compare height venue coins

end Trader

end CrossBook.Engine
