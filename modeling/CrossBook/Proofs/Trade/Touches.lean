import CrossBook.Proofs.Trade.Walk

/-!
# The orders a walk reaches

A walk goes through the orders of the chain one after the other and reaches each of them when it
first matches it. Until then the whole of the order is left, so an order is passed without being
reached only where it holds nothing; and no order is reached twice, since the next one is not
reached yet. Rounding plays no part in it: a match of a base that is rounded to zero reaches its
order as well.

## Main definitions

* `Trade.Touch.OfOrder` — a touch is that of an order which can be claimed
* `Trade.heldPlaces` — the places of the orders that hold something
* `Trade.Walk.Reaching` — the orders a walk has reached so far
* `Trade.Plan.ReachesInOrder` — the orders a plan reaches

## Main results

* `Trade.Walk.Reaching.step` — every step reaches the next order that holds something, or none
* `Trade.Plan.size_reaches` — sized plans reach orders one after the other and leave none out
-/

namespace CrossBook.Trade

open Decimal

/-- The touch is that of an order on the side that is traded against, which holds something and
whose human price crosses that of a level. -/
structure Touch.OfOrder (u : Units) (d : Direction) (venue : List Venue.Level) (t : Touch)
    (o : Chain.Order) : Prop where
  claim_eq : t.claim = ⟨o.tick, o.id⟩
  onSide : o.expectSide d.chainSide = .ok ()
  quantity_pos : zero < o.quantity
  crosses : ∃ human, u.humanPriceOfTick o.tick = .ok human ∧ ∃ l ∈ venue, d.Crosses human l.price

/-! ### Places of orders -/

/-- The order at a place holds something. -/
def HeldAt (chain : List Chain.Order) (i : ℕ) : Prop := ∃ o ∈ chain[i]?, zero < o.quantity

instance (chain : List Chain.Order) (i : ℕ) : Decidable (HeldAt chain i) :=
  inferInstanceAs (Decidable (∃ o ∈ _, _))

/-- The places below a bound whose orders hold something. -/
def heldPlaces (chain : List Chain.Order) (bound : ℕ) : List ℕ :=
  (List.range bound).filter fun i => HeldAt chain i

variable {chain : List Chain.Order} {bound i : ℕ}

theorem mem_heldPlaces : i ∈ heldPlaces chain bound ↔ i < bound ∧ HeldAt chain i := by
  simp [heldPlaces]

theorem heldPlaces_pairwise (chain : List Chain.Order) (bound : ℕ) :
    (heldPlaces chain bound).Pairwise (· < ·) :=
  List.pairwise_lt_range.filter _

/-- No more places hold something than there are. -/
theorem length_heldPlaces_le (chain : List Chain.Order) (bound : ℕ) :
    (heldPlaces chain bound).length ≤ chain.length := by
  have within : (heldPlaces chain bound).Subperm (List.range chain.length) := by
    refine (heldPlaces_pairwise chain bound).nodup.subperm fun i among => ?_
    obtain ⟨-, o, found, -⟩ := mem_heldPlaces.mp among
    obtain ⟨short, -⟩ := List.getElem?_eq_some_iff.mp found
    exact List.mem_range.mpr short
  simpa using within.length_le

theorem heldPlaces_succ_of_held (held : HeldAt chain bound) :
    heldPlaces chain (bound + 1) = heldPlaces chain bound ++ [bound] := by
  simp [heldPlaces, List.range_succ, held]

theorem heldPlaces_succ_of_not_held (void : ¬ HeldAt chain bound) :
    heldPlaces chain (bound + 1) = heldPlaces chain bound := by
  simp [heldPlaces, List.range_succ, void]

namespace Walk

variable {u : Units} {d : Direction} {venue : List Venue.Level} {w next : Walk} {passed : ℕ}

/-- Of the orders a walk has passed, and of the first one once it is reached, it has touched those
that hold something. -/
structure Reaching (u : Units) (d : Direction) (venue : List Venue.Level)
    (chain : List Chain.Order) (w : Walk) (passed : ℕ) : Prop where
  direction_eq : w.plan.direction = d
  venue_suffix : w.venue <:+ venue
  chain_eq : w.chain = chain.drop passed
  whole : w.touched = false → w.chainLeft = firstQuantity w.chain
  touches : List.Forall₂ (fun i t => ∃ o, chain[i]? = some o ∧ t.OfOrder u d venue o)
    (heldPlaces chain (passed + if w.touched then 1 else 0)) w.plan.touches

theorem reaching_start (u : Units) (d : Direction) (venue : List Venue.Level)
    (chain : List Chain.Order) : (start d venue chain).Reaching u d venue chain 0 where
  direction_eq := rfl
  venue_suffix := List.suffix_refl venue
  chain_eq := rfl
  whole := fun _ => rfl
  touches := .nil

theorem Reaching.order_at (h : w.Reaching u d venue chain passed) (f : Front u w) :
    chain[passed]? = some f.order := by
  have first : (chain.drop passed)[0]? = some f.order := by
    rw [← h.chain_eq, f.chain_eq]
    rfl
  simpa using first

/-- An order that is not reached yet holds as much as is left of it. -/
theorem Reaching.held_iff (h : w.Reaching u d venue chain passed) (f : Front u w)
    (unreached : w.touched = false) : HeldAt chain passed ↔ 0 < w.chainLeft.value := by
  rw [HeldAt, h.order_at f, h.whole unreached, f.chain_eq]
  simp [firstQuantity, lt_iff_value]

/-- A first order that crosses the first level and holds something can be touched. -/
theorem Reaching.ofOrder (h : w.Reaching u d venue chain passed) (f : Front u w)
    (crossing : f.Crossing) (held : zero < f.order.quantity) :
    Touch.OfOrder u d venue ⟨⟨f.order.tick, f.order.id⟩, w.plan.base⟩ f.order := by
  have side := f.onSide
  have among : f.level ∈ w.venue := by
    rw [f.venue_eq]
    exact List.mem_cons_self
  rw [h.direction_eq] at side
  rw [Front.Crossing, h.direction_eq] at crossing
  refine ⟨rfl, side, held, f.human, ?_, f.level, h.venue_suffix.subset among, crossing⟩
  exact bind_eq_ok.mpr ⟨f.chainPrice, liftM_eq_ok.mpr f.price_eq, f.human_eq⟩

/-- The first order is touched when it is reached, and only once. -/
theorem Reaching.reached (h : w.Reaching u d venue chain passed) (f : Front u w)
    (crossing : f.Crossing) (left : 0 < w.chainLeft.value) :
    List.Forall₂ (fun i t => ∃ o, chain[i]? = some o ∧ t.OfOrder u d venue o)
      (heldPlaces chain (passed + 1)) (w.reached f.order).touches := by
  have touches := h.touches
  unfold Walk.reached
  by_cases reached : w.touched
  · rw [if_pos reached] at touches ⊢
    exact touches
  · rw [if_neg reached] at touches ⊢
    have unreached : w.touched = false := Bool.eq_false_iff.mpr reached
    have held := (h.held_iff f unreached).mpr left
    rw [heldPlaces_succ_of_held held]
    apply List.rel_append touches
    refine .cons ⟨f.order, h.order_at f, ?_⟩ .nil
    apply h.ofOrder f crossing
    obtain ⟨o, found, quantity⟩ := held
    obtain rfl := Option.some.inj (found.symm.trans (h.order_at f))
    exact quantity

/-- Every step keeps to the orders one after the other: it passes an order that is reached or holds
nothing, or it reaches the first one. -/
theorem Reaching.step (h : w.Reaching u d venue chain passed) (step : Step u w (.more next)) :
    ∃ passed', next.Reaching u d venue chain passed' := by
  cases step with
  | passLevel f crossing exhausted =>
    refine ⟨passed, h.direction_eq, ?_, h.chain_eq, h.whole, h.touches⟩
    exact (List.tail_suffix _).trans h.venue_suffix
  | passOrder f crossing exhausted =>
    refine ⟨passed + 1, h.direction_eq, h.venue_suffix, ?_, fun _ => rfl, ?_⟩
    · rw [passOrder, h.chain_eq, List.tail_drop]
    · have touches := h.touches
      by_cases reached : w.touched
      · rwa [if_pos reached] at touches
      · -- what is left of an order that is not reached is all of it, which is nothing
        have unreached : w.touched = false := Bool.eq_false_iff.mpr reached
        have void : ¬ HeldAt chain passed := by
          rw [h.held_iff f unreached]
          exact not_lt.mpr exhausted
        rw [if_neg reached, Nat.add_zero] at touches
        rw [← heldPlaces_succ_of_not_held void] at touches
        exact touches
  | matching m =>
    refine ⟨passed, ?_, ?_, ?_, ?_, ?_⟩
    · exact (direction_of_step (.matching m)).trans h.direction_eq
    · rw [m.venue_same]
      exact h.venue_suffix
    · rw [m.chain_same]
      exact h.chain_eq
    · intro unreached
      rw [m.touched] at unreached
      cases unreached
    · rw [m.touched, if_pos rfl, m.extended.touches_eq]
      exact h.reached m.toFront m.crossing m.chainLeft_pos

end Walk

namespace Plan

variable {u : Units} {d : Direction} {venue : List Venue.Level} {p plan : Plan}

/-- The touches of a plan are those of orders at increasing places, which are on the side traded
against, hold something and cross a level; no order that holds something is left out before the last
of them. The base matched before them starts at nothing, never falls and is part of the plan's, and
there is base only where there is a claim. -/
structure ReachesInOrder (u : Units) (d : Direction) (venue : List Venue.Level)
    (chain : List Chain.Order) (p : Plan) (places : List ℕ) : Prop where
  increasing : places.Pairwise (· < ·)
  orders : List.Forall₂ (fun i t => ∃ o, chain[i]? = some o ∧ t.OfOrder u d venue o) places
    p.touches
  none_skipped : ∀ j ∈ places, ∀ i < j, ∀ o, chain[i]? = some o → zero < o.quantity → i ∈ places
  first : ∀ t ∈ p.touches.head?, t.baseBefore.SameValue zero
  sorted : p.touches.Pairwise fun t t' => t.baseBefore ≤ t'.baseBefore
  within : ∀ t ∈ p.touches, t.baseBefore ≤ p.base
  claimed : zero < p.base → p.claims ≠ []

/-- The first order a consistent plan reaches was reached before anything was matched. -/
theorem Consistent.first_baseBefore (h : p.Consistent) {t : Touch} (first : t ∈ p.touches.head?) :
    t.baseBefore.value = 0 := by
  obtain ⟨rest, touches⟩ := List.head?_eq_some_iff.mp first
  obtain ⟨nonneg, -⟩ := h.touches_within t (by rw [touches]; exact List.mem_cons_self)
  rcases h.first_touch with ⟨none, -⟩ | ⟨t', among, nothing⟩
  · rw [touches] at none
    cases none
  · have sorted := h.touches_sorted
    rw [touches] at among sorted
    rcases List.mem_cons.mp among with rfl | later
    · exact nothing
    · have le := List.rel_of_pairwise_cons sorted later
      exact le_antisymm (le.trans_eq nothing) nonneg

/-- A sized plan reaches orders one after the other and leaves none out that holds something. -/
theorem size_reaches (h : Plan.size u d venue chain = .ok plan) :
    ∃ places, plan.ReachesInOrder u d venue chain places := by
  have consistent := size_consistent h
  obtain ⟨last, ⟨passed, reaching⟩, rfl⟩ := size_ends
    (P := fun w => ∃ passed, w.Reaching u d venue chain passed)
    (fun ⟨_, holds⟩ step => holds.step step) ⟨0, Walk.reaching_start u d venue chain⟩ h
  refine ⟨_, heldPlaces_pairwise chain _, reaching.touches, ?_, ?_, ?_, ?_, ?_⟩
  · intro j among i before o found quantity
    rw [mem_heldPlaces] at among ⊢
    exact ⟨before.trans among.1, o, found, quantity⟩
  · intro t first
    rw [sameValue_iff_value, value_zero]
    exact consistent.first_baseBefore first
  · exact consistent.touches_sorted.imp fun le => le_iff_value.mpr le
  · intro t among
    exact le_iff_value.mpr (consistent.touches_within t among).2
  · intro positive none
    rw [lt_iff_value, value_zero] at positive
    rcases consistent.first_touch with ⟨-, nothing⟩ | ⟨t, among, -⟩
    · exact positive.ne' nothing
    · exact List.ne_nil_of_mem (List.mem_map_of_mem among) none

/-- What the first order holds buys less base than a decimal can show, and the second holds nothing:
the first is claimed and the second is not. -/
theorem size_reaches_of_speck :
    let venue : List Venue.Level := [⟨.ofWord 15 1, .ofWord 30 0⟩]
    let chain : List Chain.Order :=
      [.fresh 2000000 6 "bid" "maker" (.ofWord 1 28), .fresh 2000000 7 "bid" "maker" .zero,
        .fresh 2000000 8 "bid" "maker" (.ofWord 70 0)]
    ∃ plan, Plan.size ⟨6, 6⟩ .chainBid venue chain = .ok plan ∧
      (∃ places, plan.ReachesInOrder ⟨6, 6⟩ .chainBid venue chain places) ∧
      plan.claims = [⟨2000000, 6⟩, ⟨2000000, 8⟩] ∧
      ∀ t ∈ plan.touches, t.baseBefore.SameValue zero := by
  intro venue chain
  obtain ⟨plan, sized, claims, together⟩ := exists_eq_ok
    (x := Plan.size ⟨6, 6⟩ .chainBid venue chain)
    (P := fun plan => plan.claims = [⟨2000000, 6⟩, ⟨2000000, 8⟩] ∧
      ∀ t ∈ plan.touches, t.baseBefore.SameValue zero) (by decide +kernel)
  exact ⟨plan, sized, size_reaches sized, claims, together⟩

end Plan

end CrossBook.Trade
