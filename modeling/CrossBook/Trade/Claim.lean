import CrossBook.Json.Printer

/-!
# Claims

An order that a swap fills keeps its proceeds in the contract until somebody claims them. Claims
are sent in one message for all of a plan's orders.

## Main definitions

* `Trade.Claim` — an order to claim
* `Trade.batchMessage` — the message for a list of claims
-/

namespace CrossBook.Trade

/-- An order whose proceeds are to be claimed. -/
structure Claim where
  tick : Int
  order : Int
deriving DecidableEq

/-- A claim as the pair of its tick and its order. -/
def Claim.toJson (c : Claim) : Json := .array [Json.ofInt c.tick, Json.ofInt c.order]

/-- The message that claims orders in the given order. -/
def batchMessage (claims : List Claim) : Json :=
  Json.ofFields [("batch_claim", Json.ofFields [("orders", .array (claims.map Claim.toJson))])]

/-- The message as compact text. -/
def batchText (claims : List Claim) : String := (batchMessage claims).render

end CrossBook.Trade
