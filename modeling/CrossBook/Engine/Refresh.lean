import CrossBook.Engine.Clock

/-!
# Refreshing pools

The resting orders of a pool are the orders at all its active ticks. A tick that cannot be read is
left out; a pool whose ticks are not told keeps what is known of it.

## Main definitions

* `Engine.Load` — what reading a pool comes to
* `Engine.OrderBookAddress.load` — reading a pool
* `Engine.Stores.settle` — the stores after some pools were read
-/

namespace CrossBook.Engine

open Text

/-- What reading a pool comes to. -/
structure Load where
  pool : Nat
  result : Except Error Chain.RestingBook

/-- The orders at ticks that could be read. -/
def ordersRead (contract : String) :
    (ticks : List Int) → Answers Call.Result (ticks.map (Call.restingOrders contract)) →
      List Chain.Order
  | [], .nil => []
  | _ :: ticks, .cons (.ok orders) rest => List.append orders (ordersRead contract ticks rest)
  | _ :: ticks, .cons (.error _) rest => ordersRead contract ticks rest

/-- The resting orders of a pool, unless one of them has no side. -/
def restingOrders (pool height : Nat) (orders : List Chain.Order) :
    Except Error Chain.RestingBook :=
  match Chain.RestingBook.ofOrders pool height orders with
  | .ok b => .ok b
  | .error e => .error (.domain e)

/-- Reads the orders of a pool: first its active ticks, and then all of them together. -/
def OrderBookAddress.load (a : OrderBookAddress) (height : Nat) : Program Load 2 :=
  .call (.activeTicks a.pool) fun
    | .error e => .done ⟨a.pool, .error e⟩
    | .ok (ticks : List Int) =>
      .ask (ticks.map (Call.restingOrders a.contract)) .untilAll fun results =>
        .done ⟨a.pool, restingOrders a.pool height (ordersRead a.contract ticks results)⟩

/-- The abort of a pool whose orders cannot be. -/
def invalidOrders (pool : Nat) (e : Error) : Abort :=
  .invalidState ("pool " ++ writeNat pool ++ " returned invalid orders: " ++ e.message)

/-- The stores after some pools were read, with the pools whose orders were replaced. The first
pool whose orders cannot be unwinds; what was stored before it stays. -/
def Stores.settle (s : Stores) (refreshed : List Nat) : List Load → Stores × Except Abort (List Nat)
  | [] => (s, .ok refreshed)
  | l :: loads =>
    match l.result with
    | .ok b => (s.putPool b).settle (refreshed ++ [l.pool]) loads
    | .error e =>
      if e.severity = .invalidState then (s, .error (invalidOrders l.pool e))
      else s.settle refreshed loads

end CrossBook.Engine
