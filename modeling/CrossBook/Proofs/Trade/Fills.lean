import CrossBook.Proofs.Trade.Margin
import CrossBook.Proofs.Trade.Volume

/-!
# The fills of a plan

A plan adds up fills, one for each match, and rounds every product and sum. Over sorted books the
chain's prices of the fills get worse, but none of them passes a price of the venue. So, but for
rounding, what a purchase on the chain sells at the venue brings in any chain price of the plan for
all of its base, and what comes before a step cost no more than the chain price of the step.

## Main definitions

* `Trade.Fill` — a match with its prices
* `Trade.Plan.Gathers` — a plan adds up fills
* `Trade.Plan.InOrder` — the fills of sorted books
* `Trade.Plan.stepSlack` — as far as the sums of a match may be off at a price

## Main results

* `Trade.Plan.size_gathers` — sized plans add up fills in order
* `Trade.Plan.size_step_price` — the price of a step is between what the plan brings in for its base
  and what the base before the step cost
-/

namespace CrossBook.Trade

open Decimal

/-- A match with its prices at the venue and on the chain. -/
structure Fill where
  matched : Decimal
  venuePrice : Decimal
  chainPrice : Decimal

namespace Plan

/-- The plan adds up the fills, and reaches some orders. -/
inductive Gathers : Plan → List Fill → Prop where
  | empty (d : Direction) : (empty d).Gathers []
  | touch {fills : List Fill} {p : Plan} (h : p.Gathers fills) (o : Chain.Order) :
      (p.touch o).Gathers fills
  | extend {fills : List Fill} {p q : Plan} {f : Fill} {proceeds cost : Decimal}
      (h : p.Gathers fills)
      (extended : p.Extends f.matched f.venuePrice f.chainPrice proceeds cost q) :
      q.Gathers (fills ++ [f])

/-- Fills as sorted books give them: no chain price is past any venue price, and the chain prices
come best first. -/
structure InOrder (d : Direction) (fills : List Fill) : Prop where
  matched_nonneg : ∀ f ∈ fills, 0 ≤ f.matched.value
  chainPrice_pos : ∀ f ∈ fills, 0 < f.chainPrice.value
  crossing : ∀ f ∈ fills, ∀ g ∈ fills, d.ExactlyCrosses f.chainPrice.value g.venuePrice.value
  bestFirst : fills.Pairwise fun f g => d.ExactlyCrosses f.chainPrice.value g.chainPrice.value

theorem inOrder_nil (d : Direction) : InOrder d [] := ⟨by simp, by simp, by simp, .nil⟩

/-- Fills stay in order when one comes last whose prices are no better than those of the others. -/
theorem InOrder.concat {d : Direction} {fills : List Fill} {f : Fill} (h : InOrder d fills)
    (matched_nonneg : 0 ≤ f.matched.value) (chainPrice_pos : 0 < f.chainPrice.value)
    (crossing : d.ExactlyCrosses f.chainPrice.value f.venuePrice.value)
    (venue : ∀ g ∈ fills, d.ExactlyCrosses f.venuePrice.value g.venuePrice.value)
    (chain : ∀ g ∈ fills, d.ExactlyCrosses g.chainPrice.value f.chainPrice.value) :
    InOrder d (fills ++ [f]) where
  matched_nonneg := List.forall_mem_append.mpr ⟨h.matched_nonneg, by simpa using matched_nonneg⟩
  chainPrice_pos := List.forall_mem_append.mpr ⟨h.chainPrice_pos, by simpa using chainPrice_pos⟩
  crossing := by
    intro g among g' among'
    simp only [List.mem_append, List.mem_singleton] at among among'
    rcases among with old | rfl <;> rcases among' with old' | rfl
    · exact h.crossing g old g' old'
    · exact (chain g old).trans crossing
    · exact crossing.trans (venue g' old')
    · exact crossing
  bestFirst := by
    refine List.pairwise_append.mpr ⟨h.bestFirst, List.pairwise_singleton _ _, ?_⟩
    intro g among f' last
    obtain rfl := List.mem_singleton.mp last
    exact chain g among

end Plan

namespace Walk

variable {u : Units} {d : Direction} {w next : Walk} {fills : List Fill}

/-! ### The fills of a walk -/

/-- The plan of the walk adds up fills in order, and what is left of both books is not better. -/
structure Filled (u : Units) (d : Direction) (w : Walk) (fills : List Fill) : Prop where
  direction_eq : w.plan.direction = d
  gathers : w.plan.Gathers fills
  inOrder : Plan.InOrder d fills
  levels : d.VenueSorted w.venue
  orders : d.ChainSorted w.chain
  venueLeft : ∀ f ∈ fills, ∀ l ∈ w.venue, ∀ v, u.toChainPrice l.price = .ok v →
    d.ExactlyCrosses v.value f.venuePrice.value
  chainLeft : ∀ f ∈ fills, ∀ o ∈ w.chain,
    d.ExactlyCrosses f.chainPrice.value (Tick.exactPrice o.tick)

theorem Front.level_mem (f : Front u w) : f.level ∈ w.venue := by
  rw [f.venue_eq]
  exact List.mem_cons_self

theorem Front.order_mem (f : Front u w) : f.order ∈ w.chain := by
  rw [f.chain_eq]
  exact List.mem_cons_self

/-- The first level is as good as any that is left, in native units as well. -/
theorem Filled.first_level (h : w.Filled u d fills) (m : Match u w next) {l : Venue.Level}
    (among : l ∈ w.venue) {v : Decimal} (scaled : u.toChainPrice l.price = .ok v) :
    d.ExactlyCrosses v.value m.venuePrice.value := by
  have sorted := h.levels
  rw [m.venue_eq] at sorted among
  have prices := sorted.crosses among
  rw [← Direction.exactlyCrosses_mul_right_iff (by positivity : (0 : ℚ) < 10 ^ (-u.gap))] at prices
  exact prices.rounded (Units.roundsTo_of_toChainPrice scaled)
    (Units.roundsTo_of_toChainPrice m.venuePrice_eq)

/-- The first order is as good as any that is left. -/
theorem Filled.first_order (h : w.Filled u d fills) (m : Match u w next) {o : Chain.Order}
    (among : o ∈ w.chain) : d.ExactlyCrosses m.chainPrice.value (Tick.exactPrice o.tick) := by
  have sorted := h.orders
  rw [m.chain_eq] at sorted among
  have prices := sorted.crosses u among
  unfold humanPrice at prices
  rw [Direction.exactlyCrosses_mul_right_iff (by positivity)] at prices
  rwa [Tick.value_of_price m.price_eq]

/-- Every step leaves the fills in order, and a match adds one. -/
theorem Filled.step (moderate : u.Moderate) (h : w.Filled u d fills)
    (step : Step u w (.more next)) : ∃ fills', next.Filled u d fills' := by
  cases step with
  | passLevel f crossing exhausted =>
    exact ⟨fills, h.direction_eq, h.gathers, h.inOrder, h.levels.tail, h.orders,
      fun f among l left => h.venueLeft f among l (List.mem_of_mem_tail left), h.chainLeft⟩
  | passOrder f crossing exhausted =>
    exact ⟨fills, h.direction_eq, h.gathers, h.inOrder, h.levels, h.orders.tail, h.venueLeft,
      fun f among o left => h.chainLeft f among o (List.mem_of_mem_tail left)⟩
  | matching m =>
    have price := Tick.value_of_price m.price_eq
    have crossing := m.prices_cross moderate
    rw [h.direction_eq] at crossing
    have reached : (w.reached m.order).Gathers fills := by
      unfold Walk.reached
      split_ifs
      · exact h.gathers
      · exact h.gathers.touch m.order
    let f : Fill := ⟨m.matched, m.venuePrice, m.chainPrice⟩
    have gathers : next.plan.Gathers (fills ++ [f]) := .extend (f := f) reached m.extended
    have inOrder : Plan.InOrder d (fills ++ [f]) :=
      h.inOrder.concat m.matched_nonneg m.chainPrice_pos crossing
        (fun g among => h.venueLeft g among m.level m.level_mem _ m.venuePrice_eq)
        (fun g among => by rw [price]; exact h.chainLeft g among m.order m.order_mem)
    refine ⟨fills ++ [f], (direction_of_step (.matching m)).trans h.direction_eq, gathers, inOrder,
      by rw [m.venue_same]; exact h.levels, by rw [m.chain_same]; exact h.orders, ?_, ?_⟩
    · rw [m.venue_same]
      refine List.forall_mem_append.mpr ⟨h.venueLeft, ?_⟩
      rw [List.forall_mem_singleton]
      exact fun l left v scaled => h.first_level m left scaled
    · rw [m.chain_same]
      refine List.forall_mem_append.mpr ⟨h.chainLeft, ?_⟩
      rw [List.forall_mem_singleton]
      exact fun o left => h.first_order m left

end Walk

namespace Plan

variable {u : Units} {d : Direction} {venue : List Venue.Level} {chain : List Chain.Order}
  {p q plan : Plan} {fills : List Fill}

/-- A plan sized over sorted books adds up fills in order. -/
theorem size_gathers (moderate : u.Moderate) (levels : d.VenueSorted venue)
    (orders : d.ChainSorted chain) (sized : Plan.size u d venue chain = .ok plan) :
    ∃ fills, plan.Gathers fills ∧ InOrder d fills := by
  have start : (Walk.start d venue chain).Filled u d [] :=
    ⟨rfl, .empty d, inOrder_nil d, levels, orders, by simp, by simp⟩
  obtain ⟨last, ⟨fills, filled⟩, rfl⟩ := size_ends (P := fun w => ∃ fills, w.Filled u d fills)
    (fun ⟨fills, filled⟩ step => filled.step moderate step) ⟨[], start⟩ sized
  exact ⟨fills, filled.gathers, filled.inOrder⟩

/-! ### Sums of fills -/

/-- As far as the base and a quote of a plan may be off after a match, in quote at a price, when they
come to no more than `base` and `quote`. -/
def stepSlack (price base quote : ℚ) : ℚ := 2 * slack quote + price * slack base

theorem stepSlack_nonneg {price base quote : ℚ} (price_nonneg : 0 ≤ price) (base_nonneg : 0 ≤ base)
    (quote_nonneg : 0 ≤ quote) : 0 ≤ stepSlack price base quote :=
  add_nonneg (mul_nonneg (by norm_num) (slack_nonneg quote_nonneg))
    (mul_nonneg price_nonneg (slack_nonneg base_nonneg))

/-- A product is rounded and added to an amount, and the sum is rounded. -/
theorem added_near {a x y product sum : Decimal} (a_nonneg : 0 ≤ a.value)
    (product_nonneg : 0 ≤ x.value * y.value) (hp : x.mul? y = some product)
    (hs : a.add? product = some sum) : a.value ≤ sum.value ∧
      sum.value ≤ a.value + x.value * y.value + 2 * slack sum.value ∧
      a.value + x.value * y.value ≤ sum.value + 2 * slack sum.value := by
  have rounded := roundsTo_of_mul? hp
  have nonneg := rounded.nonneg product_nonneg
  obtain ⟨up, down⟩ := rounded.near product_nonneg
  obtain ⟨up', down'⟩ := (roundsTo_of_add? hs).near (add_nonneg a_nonneg nonneg)
  have grows := (roundsTo_of_add? hs).ge (le_add_of_nonneg_right nonneg)
  obtain ⟨e, rounds, value_e⟩ := exists_roundsTo_value product
  have part : product.value ≤ sum.value :=
    value_e.symm.trans_le (rounds.mono (roundsTo_of_add? hs) (le_add_of_nonneg_left a_nonneg))
  have less := slack_mono part
  exact ⟨grows, by linarith, by linarith⟩

theorem InOrder.sublist {fills' : List Fill} (h : InOrder d fills) (sub : fills'.Sublist fills) :
    InOrder d fills' where
  matched_nonneg f among := h.matched_nonneg f (sub.subset among)
  chainPrice_pos f among := h.chainPrice_pos f (sub.subset among)
  crossing f among g among' := h.crossing f (sub.subset among) g (sub.subset among')
  bestFirst := h.bestFirst.sublist sub

/-- Where the chain sells, it does so for something, and the venue buys for no less. -/
theorem InOrder.venuePrice_nonneg (h : InOrder .venueBid fills) {f : Fill} (among : f ∈ fills) :
    0 ≤ f.venuePrice.value :=
  (h.chainPrice_pos f among).le.trans (h.crossing f among f among)

/-- A fill is added to the sums of a plan: none of them falls, and they are near what they should be,
on both sides of it for the base, on the side where a purchase on the chain loses for the quotes. -/
structure Adds (p : Plan) (f : Fill) (q : Plan) : Prop where
  base_le : p.base.value ≤ q.base.value
  quote_le : p.quote.value ≤ q.quote.value
  chainQuote_le : p.chainQuote.value ≤ q.chainQuote.value
  bought_le : q.base.value ≤ p.base.value + f.matched.value + slack q.base.value
  le_bought : p.base.value + f.matched.value ≤ q.base.value + slack q.base.value
  le_brought : p.quote.value + f.matched.value * f.venuePrice.value ≤
    q.quote.value + 2 * slack q.quote.value
  spent_le : q.chainQuote.value ≤
    p.chainQuote.value + f.matched.value * f.chainPrice.value + 2 * slack q.chainQuote.value

/-- No sum of a plan is negative. -/
structure Nonneg (p : Plan) : Prop where
  base : 0 ≤ p.base.value
  quote : 0 ≤ p.quote.value
  chainQuote : 0 ≤ p.chainQuote.value

theorem Nonneg.adds (h : p.Nonneg) {f : Fill} {proceeds cost : Decimal}
    (inOrder : InOrder .venueBid (fills ++ [f]))
    (extended : p.Extends f.matched f.venuePrice f.chainPrice proceeds cost q) : p.Adds f q := by
  have last : f ∈ fills ++ [f] := List.mem_append_right _ (List.mem_singleton_self f)
  have matched := inOrder.matched_nonneg f last
  have sum := roundsTo_of_add? extended.base_eq
  obtain ⟨above, below⟩ := sum.near (add_nonneg h.base matched)
  obtain ⟨quote, -, brought⟩ := added_near h.quote
    (mul_nonneg matched (inOrder.venuePrice_nonneg last)) extended.proceeds_eq extended.quote_eq
  obtain ⟨chainQuote, spent, -⟩ := added_near h.chainQuote
    (mul_nonneg matched (inOrder.chainPrice_pos f last).le) extended.cost_eq extended.chainQuote_eq
  exact ⟨sum.ge (le_add_of_nonneg_right matched), quote, chainQuote, above, below, brought, spent⟩

theorem Gathers.nonneg (h : p.Gathers fills) (inOrder : InOrder .venueBid fills) : p.Nonneg := by
  induction h with
  | empty d => exact ⟨value_zero.ge, value_zero.ge, value_zero.ge⟩
  | touch h o ih => exact ⟨(ih inOrder).base, (ih inOrder).quote, (ih inOrder).chainQuote⟩
  | extend h extended ih =>
    have nonneg := ih (inOrder.sublist (List.sublist_append_left _ _))
    have adds := nonneg.adds inOrder extended
    exact ⟨nonneg.base.trans adds.base_le, nonneg.quote.trans adds.quote_le,
      nonneg.chainQuote.trans adds.chainQuote_le⟩

/-- For its base, a plan brings in any price that no fill is below. -/
theorem Gathers.base_mul_le (h : p.Gathers fills) (inOrder : InOrder .venueBid fills)
    {price base quote : ℚ} (price_nonneg : 0 ≤ price)
    (below : ∀ f ∈ fills, price ≤ f.venuePrice.value) (base_le : p.base.value ≤ base)
    (quote_le : p.quote.value ≤ quote) :
    p.base.value * price ≤ p.quote.value + fills.length * stepSlack price base quote := by
  induction h with
  | empty d => simp [Plan.empty]
  | touch h o ih => exact ih inOrder below base_le quote_le
  | @extend fills p q f proceeds cost h extended ih =>
    have inOrder' := inOrder.sublist (List.sublist_append_left fills [f])
    obtain ⟨below, last⟩ := List.forall_mem_append.mp below
    rw [List.forall_mem_singleton] at last
    have adds := (h.nonneg inOrder').adds inOrder extended
    have earlier := ih inOrder' below (adds.base_le.trans base_le) (adds.quote_le.trans quote_le)
    have worth := mul_le_mul_of_nonneg_left last (inOrder.matched_nonneg f (by simp))
    have dear := mul_le_mul_of_nonneg_right
      (adds.bought_le.trans (add_le_add_right (slack_mono base_le) _)) price_nonneg
    have brought := adds.le_brought
    have off := slack_mono quote_le
    rw [List.length_append, List.length_singleton, Nat.cast_add, Nat.cast_one]
    unfold stepSlack at earlier ⊢
    linarith

/-- The base of a plan cost no more than any price that no fill is above. -/
theorem Gathers.chainQuote_le (h : p.Gathers fills) (inOrder : InOrder .venueBid fills)
    {price base quote : ℚ} (price_nonneg : 0 ≤ price)
    (above : ∀ f ∈ fills, f.chainPrice.value ≤ price) (base_le : p.base.value ≤ base)
    (quote_le : p.chainQuote.value ≤ quote) :
    p.chainQuote.value ≤ p.base.value * price + fills.length * stepSlack price base quote := by
  induction h with
  | empty d => simp [Plan.empty]
  | touch h o ih => exact ih inOrder above base_le quote_le
  | @extend fills p q f proceeds cost h extended ih =>
    have inOrder' := inOrder.sublist (List.sublist_append_left fills [f])
    obtain ⟨above, last⟩ := List.forall_mem_append.mp above
    rw [List.forall_mem_singleton] at last
    have adds := (h.nonneg inOrder').adds inOrder extended
    have earlier := ih inOrder' above (adds.base_le.trans base_le)
      (adds.chainQuote_le.trans quote_le)
    have worth := mul_le_mul_of_nonneg_left last (inOrder.matched_nonneg f (by simp))
    have cheap := mul_le_mul_of_nonneg_right
      (adds.le_bought.trans (add_le_add_right (slack_mono base_le) _)) price_nonneg
    have spent := adds.spent_le
    have off := slack_mono quote_le
    rw [List.length_append, List.length_singleton, Nat.cast_add, Nat.cast_one]
    unfold stepSlack at earlier ⊢
    linarith

theorem Gathers.length_steps (h : p.Gathers fills) : p.steps.length = fills.length := by
  induction h with
  | empty d => rfl
  | touch h o ih => exact ih
  | extend h extended ih => rw [extended.steps_eq, List.length_append, List.length_append, ih]; rfl

/-- Each step begins with the sums of the fills that come before its own. -/
theorem Gathers.exists_before (h : p.Gathers fills) (inOrder : InOrder .venueBid fills) {s : Step}
    (among : s ∈ p.steps) : ∃ before f after, ∃ q : Plan, fills = before ++ f :: after ∧
      q.Gathers before ∧ s = ⟨q.base, q.chainQuote, f.chainPrice⟩ ∧ q.base.value ≤ p.base.value ∧
      q.chainQuote.value ≤ p.chainQuote.value := by
  induction h with
  | empty d => cases among
  | touch h o ih => exact ih inOrder among
  | @extend fills p q f proceeds cost h extended ih =>
    have inOrder' := inOrder.sublist (List.sublist_append_left fills [f])
    have adds := (h.nonneg inOrder').adds inOrder extended
    rw [extended.steps_eq] at among
    rcases List.mem_append.mp among with earlier | here
    · obtain ⟨before, g, after, r, rfl, gathers, same, base, chainQuote⟩ := ih inOrder' earlier
      exact ⟨before, g, after ++ [f], r, by simp, gathers, same, base.trans adds.base_le,
        chainQuote.trans adds.chainQuote_le⟩
    · exact ⟨fills, f, [], p, rfl, h, List.mem_singleton.mp here, adds.base_le, adds.chainQuote_le⟩

/-- But for rounding, a purchase on the chain brings in the price of each of its steps at the venue
for all of its base, and before the step the base cost no more than that price. -/
theorem size_step_price (moderate : u.Moderate)
    (levels : Direction.venueBid.VenueSorted venue) (orders : Direction.venueBid.ChainSorted chain)
    (sized : Plan.size u .venueBid venue chain = .ok plan) {s : Step} (among : s ∈ plan.steps) :
    let slack := plan.steps.length * stepSlack s.chainPrice.value plan.base.value plan.quote.value
    plan.base.value * s.chainPrice.value ≤ plan.quote.value + slack ∧
      s.chainQuoteBefore.value ≤ s.baseBefore.value * s.chainPrice.value + slack := by
  obtain ⟨fills, gathers, inOrder⟩ := size_gathers moderate levels orders sized
  have margin : plan.chainQuote.value ≤ plan.quote.value := by
    obtain ⟨last, margin, rfl⟩ := size_ends (P := Walk.Margin)
      (Walk.Margin.step moderate) (le_refl _) sized
    rw [Walk.Margin, size_direction sized] at margin
    exact margin
  obtain ⟨before, f, after, q, rfl, earlier, rfl, base, chainQuote⟩ :=
    gathers.exists_before inOrder among
  have here : f ∈ before ++ f :: after := by simp
  have price_nonneg := (inOrder.chainPrice_pos f here).le
  have nonneg := gathers.nonneg inOrder
  dsimp only
  rw [gathers.length_steps]
  refine ⟨gathers.base_mul_le inOrder price_nonneg (inOrder.crossing f here) le_rfl le_rfl, ?_⟩
  -- the fills before this one have better prices, and there are no more of them than of all
  have inOrder' := inOrder.sublist (List.sublist_append_left before (f :: after))
  have better : ∀ g ∈ before, g.chainPrice.value ≤ f.chainPrice.value := fun g old =>
    (List.pairwise_append.mp inOrder.bestFirst).2.2 g old f List.mem_cons_self
  refine (earlier.chainQuote_le inOrder' price_nonneg better base (chainQuote.trans margin)).trans
    (add_le_add_right (mul_le_mul_of_nonneg_right ?_
      (stepSlack_nonneg price_nonneg nonneg.base nonneg.quote)) _)
  rw [List.length_append]
  exact_mod_cast Nat.le_add_right _ _

end Plan

end CrossBook.Trade
