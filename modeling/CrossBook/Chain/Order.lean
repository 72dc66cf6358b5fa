import CrossBook.Failure

/-!
# Resting orders

An order as the order book contract reports it. Its direction is a tag, which names a side or is
refused when the side is asked for.

## Main definitions

* `Chain.Order` — an order
* `Chain.Order.side` — the side its tag names
* `Chain.Order.expectSide` — the order is on the given side
-/

namespace CrossBook.Chain

/-- A resting order; quantities are in native units. -/
structure Order where
  tick : Int
  id : Int
  tag : String
  owner : String
  quantity : Decimal
  etas : Option String
  claimBounty : Option String
  placedQuantity : Option Decimal
  placedAt : Option String
deriving DecidableEq

namespace Order

/-- An order with a whole quantity and nothing else known. -/
def fresh (tick id : Int) (tag owner : String) (quantity : Decimal) : Order :=
  { tick := tick, id := id, tag := tag, owner := owner, quantity := quantity, etas := none,
    claimBounty := none, placedQuantity := some quantity, placedAt := none }

/-- The side the tag names. -/
def side (o : Order) : Except DomainError Side :=
  orError (.unknownDirection o.tag) (Side.ofTag? o.tag)

/-- The order is on the given side. -/
def expectSide (expected : Side) (o : Order) : Except DomainError Unit := do
  let found ← o.side
  if found = expected then .ok ()
  else .error (.unexpectedDirection expected found o.tick o.id)

end Order

end CrossBook.Chain
