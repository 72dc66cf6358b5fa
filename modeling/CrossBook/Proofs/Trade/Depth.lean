import CrossBook.Proofs.Trade.Walk
import Mathlib.Algebra.BigOperators.Group.List.Basic

/-!
# The depth of a book

The entries of a book occupy stretches of depth, measured in base and laid end to end in the order
of the book. An entry that offers nothing occupies nothing.

## Main definitions

* `Trade.Stretch` — a stretch of depth, with the entry that occupies it
* `Trade.laidOut`, `Trade.resumed` — entries laid end to end
* `Trade.LiesAt` — an entry lies at a depth
* `Trade.worthUpTo` — what entries are worth up to a depth
* `Trade.depth` — the base of an amount of what a side holds
* `Trade.venueStretches`, `Trade.chainStretches` — the two books laid out
* `Trade.CrossesAt` — the two books cross at a depth
-/

namespace CrossBook.Trade

open Decimal

variable {α : Type}

/-! ### Stretches -/

/-- A stretch of depth that an entry of a book occupies. -/
structure Stretch (α : Type) where
  item : α
  start : ℚ
  stop : ℚ

namespace Stretch

/-- The depth lies on the stretch. -/
def Covers (s : Stretch α) (x : ℚ) : Prop := s.start ≤ x ∧ x < s.stop

/-- The length of the part of the stretch that is below a depth. -/
def lengthUpTo (s : Stretch α) (x : ℚ) : ℚ := max 0 (min s.stop x - s.start)

theorem lengthUpTo_of_le {s : Stretch α} {x : ℚ} (h : x ≤ s.start) : s.lengthUpTo x = 0 :=
  max_eq_left (sub_nonpos.mpr ((min_le_right _ _).trans h))

theorem lengthUpTo_of_empty {s : Stretch α} (h : s.stop ≤ s.start) (x : ℚ) : s.lengthUpTo x = 0 :=
  max_eq_left (sub_nonpos.mpr ((min_le_left _ _).trans h))

/-- A stretch that starts later is as much shorter. -/
theorem lengthUpTo_advance (a : α) {start stop length x : ℚ} (within : start + length ≤ stop)
    (nonneg : 0 ≤ length) (deep : start + length ≤ x) :
    (⟨a, start, stop⟩ : Stretch α).lengthUpTo x
      = length + (⟨a, start + length, stop⟩ : Stretch α).lengthUpTo x := by
  -- both lengths end at the same place, and neither is cut off at zero
  have lower : start + length ≤ min stop x := le_min within deep
  unfold lengthUpTo
  dsimp only
  rw [max_eq_right (by linarith), max_eq_right (by linarith)]
  ring

end Stretch

/-- Entries laid end to end from a depth on. -/
def laidOut (width : α → ℚ) : ℚ → List α → List (Stretch α)
  | _, [] => []
  | start, a :: rest => ⟨a, start, start + width a⟩ :: laidOut width (start + width a) rest

/-- Entries laid end to end from a depth on, the first of them with another width. -/
def resumed (width first : α → ℚ) (start : ℚ) : List α → List (Stretch α)
  | [] => []
  | a :: rest => ⟨a, start, start + first a⟩ :: laidOut width (start + first a) rest

/-- An entry lies at a depth. -/
def LiesAt (stretches : List (Stretch α)) (x : ℚ) (a : α) : Prop :=
  ∃ s ∈ stretches, s.Covers x ∧ s.item = a

/-- What entries are worth up to a depth, at a price for each. -/
def worthUpTo (price : α → ℚ) (x : ℚ) (stretches : List (Stretch α)) : ℚ :=
  (stretches.map fun s => s.lengthUpTo x * price s.item).sum

theorem worthUpTo_cons (price : α → ℚ) (x : ℚ) (s : Stretch α) (rest : List (Stretch α)) :
    worthUpTo price x (s :: rest) = s.lengthUpTo x * price s.item + worthUpTo price x rest := by
  simp [worthUpTo]

theorem start_le_of_mem_laidOut {width : α → ℚ} (nonneg : ∀ a, 0 ≤ width a) {start : ℚ}
    {items : List α} {s : Stretch α} (among : s ∈ laidOut width start items) :
    start ≤ s.start := by
  induction items generalizing start with
  | nil => exact absurd among List.not_mem_nil
  | cons a rest ih =>
    rcases List.mem_cons.mp among with rfl | later
    · exact le_refl _
    · have := ih later
      linarith [nonneg a]

theorem item_mem_of_mem_laidOut {width : α → ℚ} {start : ℚ} {items : List α} {s : Stretch α}
    (among : s ∈ laidOut width start items) : s.item ∈ items := by
  induction items generalizing start with
  | nil => exact absurd among List.not_mem_nil
  | cons a rest ih =>
    rcases List.mem_cons.mp among with rfl | later
    · exact List.mem_cons_self
    · exact List.mem_cons_of_mem _ (ih later)

theorem resumed_of_eq {width first : α → ℚ} {start : ℚ} {items : List α}
    (h : ∀ a ∈ items.head?, first a = width a) :
    resumed width first start items = laidOut width start items := by
  cases items with
  | nil => rfl
  | cons a rest => rw [resumed, laidOut, h a rfl]

theorem start_le_of_mem_resumed {width first : α → ℚ} (nonneg : ∀ a, 0 ≤ width a)
    (nonneg_first : ∀ a, 0 ≤ first a) {start : ℚ} {items : List α} {s : Stretch α}
    (among : s ∈ resumed width first start items) : start ≤ s.start := by
  cases items with
  | nil => exact absurd among (List.not_mem_nil)
  | cons a rest =>
    rcases List.mem_cons.mp among with rfl | later
    · exact le_refl _
    · exact (le_add_of_nonneg_right (nonneg_first a)).trans (start_le_of_mem_laidOut nonneg later)

theorem item_mem_of_mem_resumed {width first : α → ℚ} {start : ℚ} {items : List α} {s : Stretch α}
    (among : s ∈ resumed width first start items) : s.item ∈ items := by
  cases items with
  | nil => exact absurd among (List.not_mem_nil)
  | cons a rest =>
    rcases List.mem_cons.mp among with rfl | later
    · exact List.mem_cons_self
    · exact List.mem_cons_of_mem _ (item_mem_of_mem_laidOut later)

/-- Entries that start past a depth are worth nothing up to it. -/
theorem worthUpTo_eq_zero {price : α → ℚ} {x : ℚ} {stretches : List (Stretch α)}
    (h : ∀ s ∈ stretches, x ≤ s.start) : worthUpTo price x stretches = 0 := by
  refine List.sum_eq_zero fun y among => ?_
  obtain ⟨s, there, rfl⟩ := List.mem_map.mp among
  rw [Stretch.lengthUpTo_of_le (h s there), zero_mul]

theorem liesAt_cons {s : Stretch α} {rest : List (Stretch α)} {x : ℚ} {a : α} :
    LiesAt (s :: rest) x a ↔ s.Covers x ∧ s.item = a ∨ LiesAt rest x a := by
  simp [LiesAt]

theorem liesAt_cons_of_empty {b : α} {start : ℚ} {rest : List (Stretch α)} {x : ℚ} {a : α} :
    LiesAt (⟨b, start, start⟩ :: rest) x a ↔ LiesAt rest x a := by
  rw [liesAt_cons, or_iff_right]
  rintro ⟨⟨ge, lt⟩, -⟩
  exact absurd ge (not_le.mpr lt)

theorem liesAt_advance {b : α} {start stop length x : ℚ} (nonneg : 0 ≤ length)
    (deep : start + length ≤ x) {rest : List (Stretch α)} {a : α} :
    LiesAt (⟨b, start, stop⟩ :: rest) x a ↔ LiesAt (⟨b, start + length, stop⟩ :: rest) x a := by
  have covers : (⟨b, start, stop⟩ : Stretch α).Covers x ↔
      (⟨b, start + length, stop⟩ : Stretch α).Covers x :=
    and_congr_left fun _ => ⟨fun _ => deep, fun _ => show start ≤ x by linarith⟩
  rw [liesAt_cons, liesAt_cons, covers]

theorem mem_of_liesAt_resumed {width first : α → ℚ} {start x : ℚ} {items : List α} {a : α}
    (h : LiesAt (resumed width first start items) x a) : a ∈ items := by
  obtain ⟨s, among, -, rfl⟩ := h
  exact item_mem_of_mem_resumed among

/-! ### Books -/

/-- The base of an amount of what a side holds: asks hold base, and bids hold quote that buys base
at their price. Nothing comes of an amount or a price that is not positive. -/
def depth (side : Side) (amount price : ℚ) : ℚ :=
  match side with
  | .ask => max 0 amount
  | .bid => if 0 < amount ∧ 0 < price then amount / price else 0

theorem depth_nonneg (side : Side) (amount price : ℚ) : 0 ≤ depth side amount price := by
  cases side with
  | ask => exact le_max_left _ _
  | bid =>
    unfold depth
    split_ifs with positive
    · exact (div_pos positive.1 positive.2).le
    · exact le_refl _

theorem depth_of_nonpos {amount : ℚ} (h : amount ≤ 0) (side : Side) (price : ℚ) :
    depth side amount price = 0 := by
  cases side with
  | ask => exact max_eq_left h
  | bid => exact if_neg fun positive => absurd positive.1 (not_lt.mpr h)

theorem depth_ask_of_pos {amount : ℚ} (h : 0 < amount) (price : ℚ) :
    depth .ask amount price = amount :=
  max_eq_right h.le

theorem depth_bid_of_pos {amount price : ℚ} (h : 0 < amount) (positive : 0 < price) :
    depth .bid amount price = amount / price :=
  if_pos ⟨h, positive⟩

theorem depth_bid_mul {amount p : ℚ} (price_pos : 0 < p) :
    depth .bid amount p * p = max 0 amount := by
  rcases lt_or_ge 0 amount with some_left | none
  · rw [depth_bid_of_pos some_left price_pos, div_mul_cancel₀ _ price_pos.ne',
      max_eq_right some_left.le]
  · rw [depth_of_nonpos none, zero_mul, max_eq_left none]

theorem depth_mono {side : Side} {x y p : ℚ} (h : x ≤ y) : depth side x p ≤ depth side y p := by
  cases side with
  | ask => exact max_le_max_left 0 h
  | bid =>
    rcases lt_or_ge 0 x with positive | nonpos
    · unfold depth
      dsimp only
      split_ifs with first second second
      · exact div_le_div_of_nonneg_right h first.2.le
      · exact absurd ⟨positive.trans_le h, first.2⟩ second
      · exact (div_pos second.1 second.2).le
      · exact le_refl _
    · rw [depth_of_nonpos nonpos]
      exact depth_nonneg _ _ _

/-- The chain price of a level. -/
def levelPrice (u : Units) (l : Venue.Level) : ℚ := l.price.value * 10 ^ (-u.gap)

/-- The human price of an order. -/
def humanPrice (u : Units) (o : Chain.Order) : ℚ := Tick.exactPrice o.tick * 10 ^ u.gap

/-- The base of an amount of what a level holds. -/
def levelDepth (u : Units) (d : Direction) (amount : ℚ) (l : Venue.Level) : ℚ :=
  depth d.venueSide amount (levelPrice u l)

/-- The base of an amount of what an order holds. -/
def orderDepth (d : Direction) (amount : ℚ) (o : Chain.Order) : ℚ :=
  depth d.chainSide amount (Tick.exactPrice o.tick)

theorem levelDepth_chainBid (u : Units) (amount : ℚ) (l : Venue.Level) :
    levelDepth u .chainBid amount l = depth .ask amount (levelPrice u l) := rfl

theorem levelDepth_venueBid (u : Units) (amount : ℚ) (l : Venue.Level) :
    levelDepth u .venueBid amount l = depth .bid amount (levelPrice u l) := rfl

theorem orderDepth_chainBid (amount : ℚ) (o : Chain.Order) :
    orderDepth .chainBid amount o = depth .bid amount (Tick.exactPrice o.tick) := rfl

theorem orderDepth_venueBid (amount : ℚ) (o : Chain.Order) :
    orderDepth .venueBid amount o = depth .ask amount (Tick.exactPrice o.tick) := rfl

/-- The levels of the venue's book, laid end to end from a depth on. -/
def venueStretches (u : Units) (d : Direction) (start : ℚ) (venue : List Venue.Level) :
    List (Stretch Venue.Level) :=
  laidOut (fun l => levelDepth u d l.size.value l) start venue

/-- The orders of the chain's book, laid end to end from a depth on. -/
def chainStretches (d : Direction) (start : ℚ) (chain : List Chain.Order) :
    List (Stretch Chain.Order) :=
  laidOut (fun o => orderDepth d o.quantity.value o) start chain

/-- At a depth lie a level and an order whose human prices cross. -/
def CrossesAt (u : Units) (d : Direction) (levels : List (Stretch Venue.Level))
    (orders : List (Stretch Chain.Order)) (x : ℚ) : Prop :=
  ∃ l o, LiesAt levels x l ∧ LiesAt orders x o ∧
    d.ExactlyCrosses (humanPrice u o) l.price.value

/-- The claims of the orders that a depth reaches into, with the depths they start at. -/
def reachedClaims (x : ℚ) (orders : List (Stretch Chain.Order)) : List (Claim × ℚ) :=
  (orders.filter fun s => s.start < s.stop ∧ s.start < x).map fun s =>
    (⟨s.item.tick, s.item.id⟩, s.start)

end CrossBook.Trade
