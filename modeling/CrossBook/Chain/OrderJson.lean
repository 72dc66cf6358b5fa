import CrossBook.Chain.Order
import CrossBook.Json.Reader
import CrossBook.Json.Printer

/-!
# Resting orders as JSON

An order is read from an object with its fields in any order, or from a list of its fields in their
order. It is written as an object with every field, decimals as strings with all their places.

## Main definitions

* `Chain.Order.ofText?` — the order a text is
* `Chain.Order.toJson` — the order as an object
-/

namespace CrossBook.Chain.Order

/-- A whole number within the signed words. -/
def signedOf? (v : Json) : Option Int :=
  v.integer?.bind fun i => if i < twoTo 63 then some i else none

/-- A text, or nothing. -/
def optionalText? : Json → Option (Option String)
  | .null => some none
  | v => v.text?.map some

/-- A decimal, or nothing. -/
def optionalDecimal? : Json → Option (Option Decimal)
  | .null => some none
  | v => v.decimal?.map some

/-- The value of a field that may be missing, but not come twice. -/
def missingAsNull? : List Json → Option Json
  | [] => some .null
  | [v] => some v
  | _ => none

/-- The value of a field that comes once. -/
def once? : List Json → Option Json
  | [v] => some v
  | _ => none

/-- An order from the values of its fields. -/
def ofValues? (tick id tag owner quantity etas claimBounty placedQuantity placedAt : Json) :
    Option Order := do
  return { tick := ← signedOf? tick
           id := ← signedOf? id
           tag := ← tag.text?
           owner := ← owner.text?
           quantity := ← quantity.decimal?
           etas := ← optionalText? etas
           claimBounty := ← optionalText? claimBounty
           placedQuantity := ← optionalDecimal? placedQuantity
           placedAt := ← optionalText? placedAt }

/-- The order an object is. -/
def ofFields? (fields : List (List Json.CodeUnit × Json)) : Option Order := do
  let required (name : String) := once? (Json.fieldsNamed name fields)
  let optional (name : String) := missingAsNull? (Json.fieldsNamed name fields)
  if fields.all fun f => (Json.charsOfUnits? f.1).isSome then
    ofValues? (← required "tick_id") (← required "order_id") (← required "order_direction")
      (← required "owner") (← required "quantity") (← optional "etas") (← optional "claim_bounty")
      (← optional "placed_quantity") (← optional "placed_at")
  else none

/-- The order a value is: an object, or a list whose last four values may be left out. -/
def ofJson? : Json → Option Order
  | .object fields => ofFields? fields
  | .array (tick :: id :: tag :: owner :: quantity :: rest) =>
    match rest with
    | [] => ofValues? tick id tag owner quantity .null .null .null .null
    | [e] => ofValues? tick id tag owner quantity e .null .null .null
    | [e, b] => ofValues? tick id tag owner quantity e b .null .null
    | [e, b, p] => ofValues? tick id tag owner quantity e b p .null
    | [e, b, p, a] => ofValues? tick id tag owner quantity e b p a
    | _ => none
  | _ => none

/-- The order a text is. -/
def ofText? (raw : String) : Option Order := (Json.read? raw).bind ofJson?

/-- A text, or null. -/
def textOrNull : Option String → Json
  | some s => Json.ofText s
  | none => .null

/-- A decimal with all its places, or null. -/
def decimalOrNull : Option Decimal → Json
  | some d => Json.ofText d.text
  | none => .null

/-- The order as an object with every field in a fixed order. -/
def toJson (o : Order) : Json :=
  Json.ofFields
    [("tick_id", Json.ofInt o.tick), ("order_id", Json.ofInt o.id),
     ("order_direction", Json.ofText o.tag), ("owner", Json.ofText o.owner),
     ("quantity", Json.ofText o.quantity.text), ("etas", textOrNull o.etas),
     ("claim_bounty", textOrNull o.claimBounty),
     ("placed_quantity", decimalOrNull o.placedQuantity), ("placed_at", textOrNull o.placedAt)]

/-- The order as compact text. -/
def toText (o : Order) : String := o.toJson.render

end CrossBook.Chain.Order
