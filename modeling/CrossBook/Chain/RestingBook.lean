import CrossBook.Chain.Order

/-!
# The resting orders of a pool

All resting orders of a pool at one height, by side and in priority order: the best tick first, and
within a tick the earlier order first.

## Main definitions

* `Chain.RestingBook` — the orders of a pool
* `Chain.RestingBook.ofOrders` — the orders sorted into sides
-/

namespace CrossBook.Chain

/-- The resting orders of a pool at a height, each side in priority order. -/
structure RestingBook where
  pool : Nat
  height : Nat
  bids : List Order
  asks : List Order
deriving DecidableEq

namespace RestingBook

/-- A bid comes before another: a higher tick, or the same tick and no later order. -/
def bidBefore (a b : Order) : Bool := b.tick < a.tick || (a.tick = b.tick && a.id ≤ b.id)

/-- An ask comes before another: a lower tick, or the same tick and no later order. -/
def askBefore (a b : Order) : Bool := a.tick < b.tick || (a.tick = b.tick && a.id ≤ b.id)

/-- Bids and asks in their given order; an order of neither kind is an error. -/
def split : List Order → Except DomainError (List Order × List Order)
  | [] => .ok ([], [])
  | o :: rest => do
    let side ← o.side
    let (bids, asks) ← split rest
    match side with
    | .bid => .ok (o :: bids, asks)
    | .ask => .ok (bids, o :: asks)

/-- The orders of a pool sorted into sides. Orders that tie keep their order. -/
def ofOrders (pool height : Nat) (orders : List Order) : Except DomainError RestingBook := do
  let (bids, asks) ← split orders
  .ok ⟨pool, height, bids.mergeSort bidBefore, asks.mergeSort askBefore⟩

/-- The first bid. -/
def bestBid (b : RestingBook) : Option Order := b.bids.head?

/-- The first ask. -/
def bestAsk (b : RestingBook) : Option Order := b.asks.head?

/-- The number of orders. -/
def size (b : RestingBook) : Nat := b.bids.length + b.asks.length

/-- There are no orders. -/
def isEmpty (b : RestingBook) : Bool := b.bids.isEmpty && b.asks.isEmpty

end RestingBook

end CrossBook.Chain
