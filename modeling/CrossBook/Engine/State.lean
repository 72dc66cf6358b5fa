import CrossBook.Table
import CrossBook.Trade.Claim

/-!
# State between blocks

A guard that lets one block in at a time, the heights until which pairs rest after an execution,
and the claims a cycle has collected.

## Main definitions

* `Engine.Guard` — `enter` and `release`, by numbered permits
* `Engine.Cooldowns` — `blockedUntil` and `blockUntil`, by pair
* `Engine.Ledger` — `record`, `drain` and `discard`
-/

namespace CrossBook.Engine

/-- A guard: the permit that holds it, and the number of permits asked for. -/
structure Guard where
  held : Option Nat
  asked : Nat
deriving DecidableEq

namespace Guard

/-- The guard nobody holds. -/
def free : Guard := ⟨none, 0⟩

/-- Somebody holds the guard. -/
def isBusy (g : Guard) : Bool := g.held.isSome

/-- Asks for the next permit; it is given when nobody holds the guard. -/
def enter (g : Guard) : Guard × Bool :=
  if g.isBusy then (⟨g.held, g.asked + 1⟩, false) else (⟨some g.asked, g.asked + 1⟩, true)

/-- Gives a permit back, when it is the one that holds the guard. -/
def release (g : Guard) (permit : Nat) : Guard × Bool :=
  if g.held = some permit then ({ g with held := none }, true) else (g, false)

/-- Enters and unwinds at once: a permit that was given is given back, and its number is free
again. -/
def unwind (g : Guard) : Guard := { (g.enter.1.release g.asked).1 with asked := g.asked }

end Guard

/-- The heights until which pairs rest, by display name. -/
abbrev Cooldowns := Table String Nat

namespace Cooldowns

/-- The height a pair rests until, when it does at this height; that height itself is free. -/
def blockedUntil (c : Cooldowns) (pair : String) (height : Nat) : Option Nat :=
  match c.get? pair with
  | some until_ => if height < until_ then some until_ else none
  | none => none

/-- The pair rests until a height. -/
def blockUntil (c : Cooldowns) (pair : String) (height : Nat) : Cooldowns := c.insert pair height

end Cooldowns

/-- Claims collected by a cycle, in the order of their coming. -/
structure Ledger where
  claims : List Trade.Claim
deriving DecidableEq

namespace Ledger

/-- The ledger without claims. -/
def empty : Ledger := ⟨[]⟩

/-- The ledger with more claims. -/
def record (l : Ledger) (claims : List Trade.Claim) : Ledger := ⟨l.claims ++ claims⟩

/-- All claims, and the ledger without them. -/
def drain (l : Ledger) : List Trade.Claim × Ledger := (l.claims, empty)

/-- The ledger with its claims dropped. -/
def discard (_ : Ledger) : Ledger := empty

end Ledger

end CrossBook.Engine
