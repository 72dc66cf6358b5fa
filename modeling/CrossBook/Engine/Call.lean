import CrossBook.Chain.Order
import CrossBook.Table
import CrossBook.Trade.Profit

/-!
# Calls

What the engine asks of the venue and of the chain, and what it is answered.

## Main definitions

* `Engine.MarketOrder`, `Engine.SwapRequest` — what is sent
* `Engine.Receipt`, `Engine.InstrumentMinimums`, `Engine.OrderBookAddress` — what comes back
* `Engine.Call`, `Engine.Call.Reply` — a call and the type of its reply
* `Engine.Call.known?` — the reply of a call that need not be made
-/

namespace CrossBook.Engine

/-- Whether an order on the venue spends quote or base. -/
inductive OrderKind where
  | buy
  | sell
deriving DecidableEq

/-- The name of a kind of order. -/
def OrderKind.name : OrderKind → String
  | .buy => "buy"
  | .sell => "sell"

/-- A market order on the venue. The quantity is in human units of what the order spends: quote for
a buy, base for a sell. -/
structure MarketOrder where
  symbol : String
  kind : OrderKind
  quantity : Decimal
deriving DecidableEq

/-- The least quantities the venue takes of an instrument, and how many decimal places. -/
structure InstrumentMinimums where
  base : Option Decimal := none
  quote : Option Decimal := none
  basePlaces : Option Nat := none
  quotePlaces : Option Nat := none
deriving DecidableEq

/-- An amount of a denomination, in native units. -/
structure Coin where
  denom : String
  amount : Decimal
deriving DecidableEq

/-- The pool that trades a pair and the contract that holds its orders. -/
structure OrderBookAddress where
  pool : Nat
  contract : String
deriving DecidableEq

/-- A swap to broadcast; it fails on the chain when it would return less than `minOut`. -/
structure SwapRequest where
  coinIn : Coin
  denomOut : String
  minOut : Decimal
  gasLimit : UInt64
deriving DecidableEq

/-- What became of a transaction. -/
structure Receipt where
  hash : String
  code : Nat
  log : String
deriving DecidableEq

/-- A transaction went through when its code is zero. -/
def Receipt.isSuccess (r : Receipt) : Bool := r.code = 0

/-- A call to the venue or the chain. -/
inductive Call where
  | venueBalances
  | venueMinimums (symbol : String)
  | placeOrder (order : MarketOrder)
  | chainBalances (account : String)
  | activeTicks (pool : Nat)
  | restingOrders (contract : String) (tick : Int)
  | orderBook (base quote : String)
  | decimals (denom : String)
  | price (base quote : String)
  | simulate (coinIn : Coin) (denomOut : String)
  | swap (request : SwapRequest)
  | execute (contract message : String)
deriving DecidableEq

namespace Call

/-- The type of a call's reply. -/
def Reply : Call → Type
  | venueBalances => Table String Decimal
  | venueMinimums _ => InstrumentMinimums
  | placeOrder _ => String
  | chainBalances _ => List Coin
  | activeTicks _ => List Int
  | restingOrders _ _ => List Chain.Order
  | orderBook _ _ => OrderBookAddress
  | decimals _ => Nat
  | price _ _ => Decimal
  | simulate _ _ => Trade.SwapSimulation
  | swap _ => Receipt
  | execute _ _ => Receipt

/-- What a call comes to. -/
abbrev Result (c : Call) : Type := Except Error c.Reply

/-- What a call is named in the error of its timeout. -/
def label : Call → String
  | venueBalances => "venue balances"
  | venueMinimums _ => "instrument minimums"
  | placeOrder _ => "venue order"
  | chainBalances _ => "chain balances"
  | activeTicks _ => "active ticks"
  | restingOrders _ _ => "resting orders"
  | orderBook _ _ => "canonical book"
  | decimals _ => "asset decimals"
  | price _ _ => "price"
  | simulate _ _ => "swap simulation"
  | swap _ => "swap"
  | execute _ _ => "batch claim"

/-- The reply of a call that need not be made: anything is worth one of itself. -/
def known? : (c : Call) → Option c.Reply
  | price base quote => if base = quote then some Decimal.one else none
  | _ => none

end Call

end CrossBook.Engine
