import CrossBook.Engine.Session
import CrossBook.Rehearsal.Chain
import CrossBook.Rehearsal.Venue

/-!
# Rehearsals

A venue and a chain that answer from memory, and faults that come between them and a call: a
delay, an error, or a receipt that was made up.

## Main definitions

* `Rehearsal.Fault` — what comes between
* `Rehearsal.World` — venue, chain and faults
* `Rehearsal.network` — how a world answers calls
* `Rehearsal.World.takeJournal` — what was asked of a world
-/

namespace CrossBook.Rehearsal

open Engine Text

/-- What comes between a call and whoever answers it: a delay in milliseconds, and then an error or
a code for the receipt of a transaction. -/
structure Fault where
  delay : Nat := 0
  error : Option String := none
  code : Option Nat := none
  log : String := ""
deriving DecidableEq

/-- A venue, a chain, and faults by the names of calls. -/
structure World where
  venue : Venue := {}
  chain : Chain := {}
  faults : Table String Fault := .empty

/-- The name of a call in the table of faults. -/
def faultName : Call → String
  | .venueBalances => "venue.balances"
  | .venueMinimums _ => "venue.minimums"
  | .placeOrder _ => "venue.order"
  | .chainBalances _ => "chain.balances"
  | .activeTicks pool => "chain.ticks." ++ writeNat pool
  | .restingOrders _ tick => "chain.orders." ++ writeInt tick
  | .orderBook _ _ => "chain.book"
  | .decimals _ => "chain.decimals"
  | .price base _ => "chain.price." ++ base
  | .simulate _ _ => "chain.simulate"
  | .swap _ => "chain.swap"
  | .execute _ _ => "chain.contract"

/-- The made-up result of a call, when the fault has one. Only transactions have receipts. -/
def Fault.result? (f : Fault) (c : Call) : Option c.Result :=
  match f.error with
  | some reason => some (.error (.execution (.requestFailed reason)))
  | none =>
    match c, f.code with
    | .swap _, some code => some (.ok (⟨"FAULT", code, f.log⟩ : Receipt))
    | .execute _ _, some code => some (.ok (⟨"FAULT", code, f.log⟩ : Receipt))
    | _, _ => none

namespace World

/-- The fault of a call, one that does nothing when there is none. -/
def faultOf (w : World) (c : Call) : Fault := (w.faults.get? (faultName c)).getD {}

/-- How long the venue takes over a call. -/
def latency (w : World) : Call → Nat
  | .venueBalances => w.venue.balanceLatency
  | .placeOrder _ => w.venue.orderLatency
  | _ => 0

/-- For how long a call waits: the delay of its fault, and then, when it gets through, the latency
of its answer. -/
def waits (c : Call) (w : World) : List Nat :=
  let f := w.faultOf c
  if (f.result? c).isSome then [f.delay] else [f.delay, w.latency c]

/-- The answer of the venue. -/
def ofVenue {α : Type} (w : World) (r : Rehearsal.Venue × α) : World × α :=
  ({ w with venue := r.1 }, r.2)

/-- The answer of the chain. -/
def ofChain {α : Type} (w : World) (r : Rehearsal.Chain × α) : World × α :=
  ({ w with chain := r.1 }, r.2)

/-- The answer to a call that gets through. -/
def respond (w : World) : (c : Call) → World × c.Result
  | .venueBalances => (w, w.venue.wallet)
  | .venueMinimums symbol => (w, .ok (w.venue.minimumsOf symbol))
  | .placeOrder order => w.ofVenue (w.venue.place order)
  | .chainBalances account => (w, .ok (w.chain.coinsOf account))
  | .activeTicks pool => w.ofChain (w.chain.activeTicks pool)
  | .restingOrders contract tick => (w, w.chain.restingOrders contract tick)
  | .orderBook base quote => (w, w.chain.orderBook base quote)
  | .decimals denom => (w, w.chain.decimalsOf denom)
  | .price base quote => (w, w.chain.price base quote)
  | .simulate coinIn denomOut => w.ofChain (w.chain.simulate coinIn denomOut)
  | .swap request => w.ofChain (w.chain.swap request)
  | .execute contract message => w.ofChain (w.chain.execute contract message)

/-- The answer to a call: made up by its fault, or of whom it is made to. -/
def answer (c : Call) (w : World) : World × c.Result :=
  match (w.faultOf c).result? c with
  | some r => (w, r)
  | none => w.respond c

/-- What was asked of a world and sent to it, in order. -/
structure Journal where
  venueOrders : List MarketOrder
  simulations : List Coin
  swaps : List SwapRequest
  contractCalls : List (String × String)
  tickQueries : List Nat
deriving DecidableEq

/-- What was asked and sent since the journal was last taken. -/
def takeJournal (w : World) : Journal × World :=
  (⟨w.venue.orders, w.chain.simulations, w.chain.swaps, w.chain.contractCalls,
      w.chain.tickQueries⟩,
    { w with venue := { w.venue with orders := [] }
             chain := { w.chain with simulations := [], swaps := [], contractCalls := []
                                     tickQueries := [] } })

end World

/-- How a world answers calls that may take a number of seconds. -/
def network (limitSecs : Nat) : Network World := ⟨World.waits, World.answer, limitSecs⟩

end CrossBook.Rehearsal
