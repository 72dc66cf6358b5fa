import CrossBook.Trade.Plan

/-!
# Walking both books

A plan is sized by walking one side of the venue's book against the opposite side of the chain's,
best prices first. Each step of the walk passes an exhausted level, passes an exhausted order, or
matches as much as the level and the order both hold; the walk ends where the prices no longer
cross or one book runs out.

Venue asks and chain asks hold base, venue bids and chain bids hold quote: one of the two books
holds base and the other quote, whose amounts are divided by a price to be compared.

## Main definitions

* `Trade.Walk` — where a walk stands
* `Trade.Walk.step` — one step
* `Trade.Walk.run` — steps until the walk ends
* `Trade.Plan.size` — the plan of a whole walk
-/

namespace CrossBook.Trade

/-- Where a walk stands: the levels and orders not passed yet, what is left of the first of each,
whether the first order was reached, and the plan so far. -/
structure Walk where
  venue : List Venue.Level
  chain : List Chain.Order
  venueLeft : Decimal
  chainLeft : Decimal
  touched : Bool
  plan : Plan
deriving DecidableEq

/-- What a step of a walk leads to. -/
inductive Progress where
  | finished (plan : Plan)
  | more (walk : Walk)

namespace Walk

/-- The size of the first level. -/
def firstSize : List Venue.Level → Decimal
  | [] => .zero
  | l :: _ => l.size

/-- The quantity of the first order. -/
def firstQuantity : List Chain.Order → Decimal
  | [] => .zero
  | o :: _ => o.quantity

/-- The walk before its first step. -/
def start (direction : Direction) (venue : List Venue.Level) (chain : List Chain.Order) : Walk :=
  ⟨venue, chain, firstSize venue, firstQuantity chain, false, Plan.empty direction⟩

/-- The walk at the next level. -/
def passLevel (w : Walk) : Walk :=
  { w with venue := w.venue.tail, venueLeft := firstSize w.venue.tail }

/-- The walk at the next order. -/
def passOrder (w : Walk) : Walk :=
  { w with chain := w.chain.tail, chainLeft := firstQuantity w.chain.tail, touched := false }

/-- The base that is left of the first level. -/
def venueBase (w : Walk) (venuePrice : Decimal) : Except Failure Decimal :=
  match w.plan.direction with
  | .chainBid => .ok w.venueLeft
  | .venueBid => orError Plan.sizingOverflow (w.venueLeft.div? venuePrice)

/-- The base that is left of the first order. -/
def chainBase (w : Walk) (chainPrice : Decimal) : Except Failure Decimal :=
  match w.plan.direction with
  | .chainBid => orError Plan.sizingOverflow (w.chainLeft.div? chainPrice)
  | .venueBid => .ok w.chainLeft

/-- What is left of an amount of quote after a match: nothing when the match took all of its base,
else the amount less the match at its price. -/
def quoteLeft (left ofBase matched price : Decimal) : Except Failure Decimal :=
  if matched.SameValue ofBase then .ok .zero
  else do
    let taken ← orError Plan.sizingOverflow (matched.mul? price)
    left.minus taken

/-- The walk after a match between the first level and the first order. -/
def matchFirst (w : Walk) (o : Chain.Order) (venuePrice chainPrice : Decimal) :
    Except Failure Walk := do
  let venueBase ← w.venueBase venuePrice
  let chainBase ← w.chainBase chainPrice
  let matched := venueBase.min chainBase
  let reached := if w.touched then w.plan else w.plan.touch o
  -- one side holds base and gives what is matched, the other holds quote and gives its worth
  let plan ← reached.extend matched venuePrice chainPrice
  match plan.direction with
  | .chainBid =>
    let venueLeft ← w.venueLeft.minus matched
    let chainLeft ← quoteLeft w.chainLeft chainBase matched chainPrice
    .ok { w with venueLeft := venueLeft, chainLeft := chainLeft, touched := true, plan := plan }
  | .venueBid =>
    let chainLeft ← w.chainLeft.minus matched
    let venueLeft ← quoteLeft w.venueLeft venueBase matched venuePrice
    .ok { w with venueLeft := venueLeft, chainLeft := chainLeft, touched := true, plan := plan }

/-- One step. The order's side and both prices are checked before anything is passed. -/
def step (u : Units) (w : Walk) : Except Failure Progress :=
  match w.venue, w.chain with
  | level :: _, o :: _ => do
    o.expectSide w.plan.direction.chainSide
    let chainPrice ← Tick.price o.tick
    let human ← u.toHumanPrice chainPrice
    -- exhausted entries are compared as well before they are passed
    if ¬ w.plan.direction.Crosses human level.price then .ok (.finished w.plan)
    else if w.venueLeft ≤ Decimal.zero then .ok (.more w.passLevel)
    else if w.chainLeft ≤ Decimal.zero then .ok (.more w.passOrder)
    else do
      let venuePrice ← u.toChainPrice level.price
      let next ← w.matchFirst o venuePrice chainPrice
      .ok (.more next)
  | _, _ => .ok (.finished w.plan)

/-- Steps until the walk ends, at most `fuel` of them. -/
def run (u : Units) : Nat → Walk → Except Failure Plan
  | 0, w => .ok w.plan
  | fuel + 1, w => do
    match ← w.step u with
    | .finished plan => .ok plan
    | .more next => run u fuel next

/-- The steps that are always enough: every match exhausts a level or an order, which the next step
passes, and one more step sees that a book ran out. -/
def budget (w : Walk) : Nat := 2 * (w.venue.length + w.chain.length) + 1

end Walk

/-- The plan of a walk over levels and orders in the order given. -/
def Plan.size (u : Units) (direction : Direction) (venue : List Venue.Level)
    (chain : List Chain.Order) : Except Failure Plan :=
  let w := Walk.start direction venue chain
  w.run u w.budget

end CrossBook.Trade
