import CrossBook.Trade.Claim
import CrossBook.Trade.Opportunity

/-!
# Plans

A plan is the size matched between the two books, in native units, with the steps it was matched in
and the orders it reaches. A plan can be cut down to a smaller size.

## Main definitions

* `Trade.Plan` — a matched size
* `Trade.Plan.price?` — quote per base on average
* `Trade.Plan.extend` — a plan with one more match
* `Trade.Plan.resize` — a plan cut down
-/

namespace CrossBook.Trade

/-- A stretch of a plan at one chain price, with what came before it. -/
structure Step where
  baseBefore : Decimal
  chainQuoteBefore : Decimal
  chainPrice : Decimal
deriving DecidableEq

/-- An order a plan reaches, with the base matched before it. -/
structure Touch where
  claim : Claim
  baseBefore : Decimal
deriving DecidableEq

/-- A matched size in native units: base, quote at the venue's prices, and quote at the chain's
prices. -/
structure Plan where
  direction : Direction
  base : Decimal
  quote : Decimal
  chainQuote : Decimal
  steps : List Step
  touches : List Touch
deriving DecidableEq

namespace Plan

/-- The plan that matches nothing. -/
def empty (direction : Direction) : Plan := ⟨direction, .zero, .zero, .zero, [], []⟩

/-- The plan matches nothing. -/
def IsEmpty (p : Plan) : Prop := p.base ≤ Decimal.zero ∨ p.quote ≤ Decimal.zero

instance (p : Plan) : Decidable p.IsEmpty := inferInstanceAs (Decidable (_ ∨ _))

/-- Quote per base on average. -/
def price? (p : Plan) : Option Decimal := if p.IsEmpty then none else p.quote.div? p.base

/-- The claims of the orders the plan reaches. -/
def claims (p : Plan) : List Claim := p.touches.map (·.claim)

/-- The plan reaches one more order. -/
def touch (p : Plan) (o : Chain.Order) : Plan :=
  { p with touches := p.touches ++ [⟨⟨o.tick, o.id⟩, p.base⟩] }

/-- The error of amounts that leave the decimals while a plan is sized. -/
def sizingOverflow : Failure := .ofDomain (.precisionOverflow "sizing fill")

/-- The plan with one more match, at the given prices of the venue and the chain. -/
def extend (p : Plan) (matched venuePrice chainPrice : Decimal) : Except Failure Plan := do
  let proceeds ← orError sizingOverflow (matched.mul? venuePrice)
  let quote ← p.quote.plus proceeds
  let base ← p.base.plus matched
  let cost ← orError sizingOverflow (matched.mul? chainPrice)
  let chainQuote ← p.chainQuote.plus cost
  .ok { p with base := base, quote := quote, chainQuote := chainQuote
               steps := p.steps ++ [⟨p.base, p.chainQuote, chainPrice⟩] }

/-- The cost of the first `base` units at the chain's prices, given the steps that begin before
them. -/
def repriced (base : Decimal) (steps : List Step) : Except Failure Decimal :=
  match steps.getLast? with
  | none => .ok .zero
  | some s => do
    let rest ← base.minus s.baseBefore
    let cost ← rest.times s.chainPrice
    let total ← s.chainQuoteBefore.plus cost
    .ok total.trunc

/-- The plan cut down to a base and a quote. Orders that are no longer reached are left out, and
the cost on the chain is whole units of quote. -/
def resize (p : Plan) (base quote : Decimal) : Except Failure Plan := do
  let steps := p.steps.filter fun s => s.baseBefore < base
  let chainQuote ← repriced base steps
  .ok { p with base := base, quote := quote, chainQuote := chainQuote, steps := steps
               touches := p.touches.filter fun t => t.baseBefore < base }

end Plan

end CrossBook.Trade
