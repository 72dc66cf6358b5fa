/-!
# The two legs of an execution

The order on the venue and the swap on the chain are sent together, and each succeeds or fails for
itself.

## Main definitions

* `Engine.LegOutcome` — what became of one leg
* `Engine.Legs.status` — what became of both
-/

namespace CrossBook.Engine

/-- A leg of an execution. -/
inductive Leg where
  | venue
  | chain
deriving DecidableEq

/-- The name of a leg. -/
def Leg.name : Leg → String
  | .venue => "venue"
  | .chain => "chain"

/-- What became of one leg: the order id or the transaction hash, or why it failed. -/
inductive LegOutcome where
  | filled (reference : String)
  | failed (error : String)
deriving DecidableEq

/-- The leg went through. -/
def LegOutcome.isFilled : LegOutcome → Bool
  | .filled _ => true
  | .failed _ => false

/-- What became of both legs together. -/
inductive LegStatus where
  | success
  | partialFill (filled failed : Leg) (error : String)
  | failed (reason : String)
deriving DecidableEq

/-- Both legs of an execution. -/
structure Legs where
  venue : LegOutcome
  chain : LegOutcome
deriving DecidableEq

/-- Success needs both legs; one alone leaves a position open. -/
def Legs.status (l : Legs) : LegStatus :=
  match l.venue, l.chain with
  | .filled _, .filled _ => .success
  | .filled _, .failed error => .partialFill .venue .chain error
  | .failed error, .filled _ => .partialFill .chain .venue error
  | .failed venue, .failed chain => .failed ("venue: " ++ venue ++ ", chain: " ++ chain)

end CrossBook.Engine
