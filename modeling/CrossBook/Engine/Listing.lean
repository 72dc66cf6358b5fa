import CrossBook.Amount
import CrossBook.Engine.Clock
import CrossBook.Market
import CrossBook.Tick

/-!
# Listings

What is found out about a pair before it is traded: the decimals of its assets, the pool that
trades it, and the least quantities the venue takes.

## Main definitions

* `Engine.Listing` — a pair with all that
* `Engine.Listing.find` — the listing of a pair
-/

namespace CrossBook.Engine

variable {σ : Type}

/-- Waits for a call with nothing else running. Each wait is looked at once, at its end. -/
def Network.awaitAlone (net : Network σ) (c : Call) :
    (looks : Nat) → Slot c → Scene σ → Scene σ × c.Result
  | _, .answered r, s => (s, r)
  | 0, .waiting _ _ _, s => (s, net.timeout c)
  | looks + 1, .waiting wait later deadline, s =>
    let now := max s.now (min wait.time deadline.time)
    let (s, slot) := net.look c (.waiting wait later deadline) { s with now := now, dropped := 0 }
    net.awaitAlone c looks slot s

/-- Makes one call and waits for it, with nothing else running. -/
def Network.callAlone (net : Network σ) (c : Call) (s : Scene σ) : Scene σ × c.Result :=
  let (s, slot) := net.begin c s
  net.awaitAlone c (net.waits c s.world).length slot s

/-- A pair as it is traded. Minimums are in whole native units. -/
structure Listing where
  pair : Pair
  units : Units
  address : OrderBookAddress
  minBase : Option Decimal
  minQuote : Option Decimal
  basePlaces : Option Nat
  quotePlaces : Option Nat

namespace Listing

/-- A series of calls, each made when the one before has succeeded. -/
abbrev Inquiry (σ α : Type) := ExceptT Failure (StateM (Scene σ)) α

/-- Makes one call and waits for it. -/
def inquire (net : Network σ) (c : Call) : Inquiry σ c.Reply := fun s =>
  match net.callAlone c s with
  | (s, .ok a) => (.ok a, s)
  | (s, .error e) => (.error (.error e), s)

/-- The decimals of an asset, which the chain is asked for when they were not given. -/
def decimalsOf (net : Network σ) (a : Asset) : Inquiry σ Nat :=
  match a.decimals with
  | some d => pure d
  | none => inquire net (.decimals a.denom)

/-- Native units of a quantity that may be missing. -/
def nativeOf (decimals : Nat) : Option Decimal → Except Failure (Option Decimal)
  | none => .ok none
  | some human => (Amount.toNative human decimals).map some

/-- The listing of a pair. The least fill of the base asset stands in for the venue's. -/
def find (net : Network σ) (p : Pair) : Inquiry σ Listing := do
  let baseDecimals ← decimalsOf net p.base
  let quoteDecimals ← decimalsOf net p.quote
  let address ← inquire net (.orderBook p.base.denom p.quote.denom)
  let minimums ← inquire net (.venueMinimums p.venueSymbol)
  let minBase ← nativeOf baseDecimals (p.base.minFill <|> minimums.base)
  let minQuote ← nativeOf quoteDecimals minimums.quote
  pure { pair := p, units := ⟨baseDecimals, quoteDecimals⟩, address := address,
         minBase := minBase, minQuote := minQuote, basePlaces := minimums.basePlaces,
         quotePlaces := minimums.quotePlaces }

end Listing

end CrossBook.Engine
