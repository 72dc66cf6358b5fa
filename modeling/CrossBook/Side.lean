/-!
# Sides of a book

Offers to buy are bids, offers to sell are asks.

## Main definitions

* `Side` — bid or ask
* `Side.ofTag?` — the side a tag names
-/

namespace CrossBook

/-- A side of an order book. -/
inductive Side where
  | bid
  | ask
deriving DecidableEq, Repr

namespace Side

/-- The name of a side, which is also its tag. -/
def name : Side → String
  | bid => "bid"
  | ask => "ask"

/-- The side across the spread. -/
def opposite : Side → Side
  | bid => ask
  | ask => bid

/-- The side a tag names exactly. -/
def ofTag? (tag : String) : Option Side :=
  if tag = "bid" then some bid else if tag = "ask" then some ask else none

@[simp] theorem opposite_opposite (s : Side) : s.opposite.opposite = s := by cases s <;> rfl

@[simp] theorem ofTag?_name (s : Side) : ofTag? s.name = some s := by cases s <;> rfl

theorem ofTag?_eq_some_iff {tag : String} {s : Side} : ofTag? tag = some s ↔ tag = s.name := by
  constructor
  · intro h
    unfold ofTag? at h
    split at h
    · cases h; assumption
    · split at h
      · cases h; assumption
      · cases h
  · rintro rfl
    exact ofTag?_name s

end Side

end CrossBook
