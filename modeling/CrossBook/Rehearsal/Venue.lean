import CrossBook.Engine.Call
import CrossBook.Text.Digits

/-!
# The venue of a rehearsal

A venue that answers from memory and keeps the orders it receives.

## Main definitions

* `Rehearsal.Venue` — balances, minimums, and what is to go wrong
* `Rehearsal.Venue.place` — an order comes in
-/

namespace CrossBook.Rehearsal

open Engine Text

/-- A venue that answers from memory. Latencies are in milliseconds. -/
structure Venue where
  balances : Table String Decimal := .empty
  minimums : Table String InstrumentMinimums := .empty
  balanceLatency : Nat := 0
  orderLatency : Nat := 0
  rejectsOrders : Bool := false
  failsBalances : Bool := false
  accepted : Nat := 0
  orders : List MarketOrder := []

namespace Venue

/-- What the wallet holds. -/
def wallet (v : Venue) : Except Error (Table String Decimal) :=
  if v.failsBalances then .error (.execution (.requestFailed "wallet balance unavailable"))
  else .ok v.balances

/-- The minimums of an instrument, none when it is not known. -/
def minimumsOf (v : Venue) (symbol : String) : InstrumentMinimums :=
  (v.minimums.get? symbol).getD {}

/-- An order comes in. It is kept also when it is rejected; accepted orders are numbered. -/
def place (v : Venue) (order : MarketOrder) : Venue × Except Error String :=
  let v := { v with orders := v.orders ++ [order] }
  if v.rejectsOrders then (v, .error (.execution (.orderRejected "insufficient liquidity")))
  else
    let number := v.accepted + 1
    ({ v with accepted := number }, .ok ("venue-" ++ writeNat number))

end Venue

end CrossBook.Rehearsal
