import CrossBook.Engine.Call
import CrossBook.Text.Digits

/-!
# The chain of a rehearsal

A chain that answers from memory and keeps what is asked of it and broadcast to it.

## Main definitions

* `Rehearsal.Chain` — pools, orders, prices and balances, and what is to go wrong
* `Rehearsal.Chain.putOrders` — the orders of a pool
* `Rehearsal.Chain.swap`, `Chain.execute` — transactions
-/

namespace CrossBook.Rehearsal

open Engine Text

/-- A chain that answers from memory. -/
structure Chain where
  books : Table (String × String) OrderBookAddress := .empty
  ticks : Table Nat (List Int) := .empty
  orders : List (String × CrossBook.Chain.Order) := []
  failingTicks : List Int := []
  decimals : Table String Nat := .empty
  prices : Table (String × String) Decimal := .empty
  balances : Table String (List Coin) := .empty
  simulation : Option Trade.SwapSimulation := none
  swapCode : Nat := 0
  failsActiveTicks : Bool := false
  failsSwaps : Bool := false
  transactions : Nat := 0
  tickQueries : List Nat := []
  simulations : List Coin := []
  swaps : List SwapRequest := []
  contractCalls : List (String × String) := []

namespace Chain

/-- A request that fails for a reason. -/
def refused {α : Type} (reason : String) : Except Error α :=
  .error (.execution (.requestFailed reason))

/-- The value, or a request that fails for a reason. -/
def orRefused {α : Type} (reason : String) : Option α → Except Error α :=
  orError (.execution (.requestFailed reason))

/-! ### Scripting -/

/-- The ticks of orders, in the order in which they first come. -/
def ticksOf (orders : List CrossBook.Chain.Order) : List Int :=
  orders.foldl (fun ticks o => if o.tick ∈ ticks then ticks else ticks ++ [o.tick]) []

/-- The orders of a pool replaced. Its ticks follow the orders; a contract has one pool's orders. -/
def putOrders (c : Chain) (pool : Nat) (contract : String) (orders : List CrossBook.Chain.Order) :
    Chain :=
  { c with
    orders := (c.orders.filter fun o => o.1 ≠ contract) ++ orders.map fun o => (contract, o)
    ticks := c.ticks.insert pool (ticksOf orders) }

/-- A balance of an account replaced. -/
def putBalance (c : Chain) (account : String) (coin : Coin) : Chain :=
  let others := ((c.balances.get? account).getD []).filter fun o => o.denom ≠ coin.denom
  { c with balances := c.balances.insert account (others ++ [coin]) }

/-! ### Answers -/

/-- The active ticks of a pool. -/
def activeTicks (c : Chain) (pool : Nat) : Chain × Except Error (List Int) :=
  let asked := { c with tickQueries := c.tickQueries ++ [pool] }
  if c.failsActiveTicks then (asked, refused ("pool " ++ writeNat pool ++ " unreachable"))
  else (asked, .ok ((c.ticks.get? pool).getD []))

/-- The orders of a contract at a tick. -/
def restingOrders (c : Chain) (contract : String) (tick : Int) :
    Except Error (List CrossBook.Chain.Order) :=
  if tick ∈ c.failingTicks then refused ("tick " ++ writeInt tick ++ " query failed")
  else .ok ((c.orders.filter fun o => o.1 = contract ∧ o.2.tick = tick).map (·.2))

/-- The order book of a pair. -/
def orderBook (c : Chain) (base quote : String) : Except Error OrderBookAddress :=
  orRefused ("no orderbook for " ++ base ++ "/" ++ quote) (c.books.get? (base, quote))

/-- The decimals of a denomination. -/
def decimalsOf (c : Chain) (denom : String) : Except Error Nat :=
  orRefused ("unknown denom " ++ denom) (c.decimals.get? denom)

/-- The price of a denomination in another. -/
def price (c : Chain) (base quote : String) : Except Error Decimal :=
  orRefused ("no price for " ++ base ++ "/" ++ quote) (c.prices.get? (base, quote))

/-- The coins of an account. -/
def coinsOf (c : Chain) (account : String) : List Coin := (c.balances.get? account).getD []

/-- The expected outcome of a swap. -/
def simulate (c : Chain) (coinIn : Coin) (denomOut : String) :
    Chain × Except Error Trade.SwapSimulation :=
  ({ c with simulations := c.simulations ++ [coinIn] },
    orError (.execution (.simulationFailed ("no route to " ++ denomOut))) c.simulation)

/-- The hash of the next transaction. -/
def nextHash (c : Chain) (kind : String) : String :=
  kind ++ String.ofList (padZeros 4 (digits (c.transactions + 1)))

/-- A swap is broadcast. -/
def swap (c : Chain) (request : SwapRequest) : Chain × Except Error Receipt :=
  let c := { c with swaps := c.swaps ++ [request] }
  if c.failsSwaps then (c, .error (.execution (.submissionFailed "node unavailable")))
  else
    let log := if c.swapCode = 0 then "" else "slippage exceeded"
    ({ c with transactions := c.transactions + 1 }, .ok ⟨c.nextHash "SWAP", c.swapCode, log⟩)

/-- A message is sent to a contract. -/
def execute (c : Chain) (contract message : String) : Chain × Except Error Receipt :=
  ({ c with contractCalls := c.contractCalls ++ [(contract, message)]
            transactions := c.transactions + 1 }, .ok ⟨c.nextHash "CLAIM", 0, ""⟩)

end Chain

end CrossBook.Rehearsal
