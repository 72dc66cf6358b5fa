import CrossBook.Chain.RestingBook
import CrossBook.Engine.Call
import CrossBook.Engine.State
import CrossBook.Venue.Shelf

/-!
# Programs

A program reads and changes what all programs share, and waits for calls it makes. Between two
waits it is not interrupted. The type of a program bounds how often it still waits.

## Main definitions

* `Engine.Stores` — what all programs share
* `Engine.Answers` — something for each of some calls
* `Engine.Program` — programs
-/

namespace CrossBook.Engine

/-- What all programs share: the venue's books, the resting orders of pools, how long pairs rest,
and the claims each pair has collected. -/
structure Stores where
  shelf : Venue.Shelf
  pools : Table Nat Chain.RestingBook
  cooldowns : Cooldowns
  ledgers : Table Nat Ledger

namespace Stores

/-- Stores around a shelf, with nothing else in them. -/
def ofShelf (shelf : Venue.Shelf) : Stores := ⟨shelf, .empty, .empty, .empty⟩

/-- The ledger with a number. -/
def ledger (s : Stores) (number : Nat) : Ledger := (s.ledgers.get? number).getD .empty

/-- The stores with the ledger of a number changed. -/
def modifyLedger (s : Stores) (number : Nat) (f : Ledger → Ledger) : Stores :=
  { s with ledgers := s.ledgers.insert number (f (s.ledger number)) }

/-- The stores with the orders of a pool replaced. -/
def putPool (s : Stores) (b : Chain.RestingBook) : Stores :=
  { s with pools := s.pools.insert b.pool b }

/-- The stores with a pair that rests until a height. -/
def rest (s : Stores) (pair : String) (height : Nat) : Stores :=
  { s with cooldowns := s.cooldowns.blockUntil pair height }

end Stores

/-- Something for each of some calls. -/
inductive Answers (f : Call → Type) : List Call → Type where
  | nil : Answers f []
  | cons {c : Call} {calls : List Call} (first : f c) (rest : Answers f calls) :
      Answers f (c :: calls)

/-- How long calls made together are waited for: until one has failed, or until all have ended. -/
inductive Joining where
  | untilFailure
  | untilAll
deriving DecidableEq

/-- What waiting for calls comes to. -/
def Joined : Joining → List Call → Type
  | .untilFailure, calls => Except Error (Answers Call.Reply calls)
  | .untilAll, calls => Answers Call.Result calls

/-- A program that waits at most a number of times and ends with a value. -/
inductive Program (α : Type) : Nat → Type where
  | done {n : Nat} (a : α) : Program α n
  | look {n : Nat} (k : Stores → Program α n) : Program α n
  | change {n : Nat} (f : Stores → Stores) (next : Program α n) : Program α n
  | ask {n : Nat} (calls : List Call) (joining : Joining) (k : Joined joining calls → Program α n) :
      Program α (n + 1)

namespace Program

variable {α : Type} {n : Nat}

/-- Makes one call and goes on with its result. -/
def call (c : Call) (k : c.Result → Program α n) : Program α (n + 1) :=
  .ask [c] .untilAll fun
    | .cons r .nil => k r

end Program

end CrossBook.Engine
