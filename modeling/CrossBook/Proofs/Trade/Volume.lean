import CrossBook.Proofs.Trade.Exactness
import Mathlib.Order.Bounds.Basic

/-!
# The volume of a plan

Laid out by depth, two sorted books cross down to some depth and no further. A walk that never
rounds matches all of that: its base is the depth, its quotes are what the books are worth down to
it, and its claims are those of the orders it reaches into.

The walk is taken from its end. What is left of both books at some step is laid out from the base
matched so far; what the rest of the walk adds is read off there, and each step adds its part.

## Main definitions

* `Trade.Direction.VenueSorted`, `Trade.Direction.ChainSorted` — best prices first
* `Trade.Walk.levelsLeft`, `Trade.Walk.ordersLeft` — what is left of both books
* `Trade.Walk.Completes` — what the rest of a walk adds to its plan

## Main results

* `Trade.Walk.completes` — every walk is completed
* `Trade.Plan.size_maximal` — a sized plan takes the whole crossing volume
-/

namespace CrossBook.Trade

open Decimal

namespace Direction

variable {d : Direction} {x y z : ℚ}

theorem ExactlyCrosses.trans (h : d.ExactlyCrosses x y) (h' : d.ExactlyCrosses y z) :
    d.ExactlyCrosses x z := by
  cases d with
  | chainBid => exact le_trans h' h
  | venueBid => exact le_trans h h'

/-- The levels come with the best price first: asks ascend and bids descend. -/
def VenueSorted (d : Direction) (venue : List Venue.Level) : Prop :=
  match d with
  | chainBid => venue.Pairwise fun a b => a.price ≤ b.price
  | venueBid => venue.Pairwise fun a b => b.price ≤ a.price

/-- The orders come with the best tick first: bids descend and asks ascend. -/
def ChainSorted (d : Direction) (chain : List Chain.Order) : Prop :=
  match d with
  | chainBid => chain.Pairwise fun a b => b.tick ≤ a.tick
  | venueBid => chain.Pairwise fun a b => a.tick ≤ b.tick

theorem VenueSorted.tail {venue : List Venue.Level} (h : d.VenueSorted venue) :
    d.VenueSorted venue.tail := by
  cases d <;> exact List.Pairwise.tail h

theorem ChainSorted.tail {chain : List Chain.Order} (h : d.ChainSorted chain) :
    d.ChainSorted chain.tail := by
  cases d <;> exact List.Pairwise.tail h

/-- A price that crosses a level crosses those before it. -/
theorem VenueSorted.crosses {l m : Venue.Level} {rest : List Venue.Level}
    (h : d.VenueSorted (l :: rest)) (among : m ∈ l :: rest) :
    d.ExactlyCrosses m.price.value l.price.value := by
  rcases List.mem_cons.mp among with rfl | later
  · cases d <;> exact le_refl _
  · cases d <;> exact le_iff_value.mp (List.rel_of_pairwise_cons h later)

/-- A price that an order crosses is crossed by those before it. -/
theorem ChainSorted.crosses {o p : Chain.Order} {rest : List Chain.Order} (u : Units)
    (h : d.ChainSorted (o :: rest)) (among : p ∈ o :: rest) :
    d.ExactlyCrosses (humanPrice u o) (humanPrice u p) := by
  unfold humanPrice
  rw [exactlyCrosses_mul_right_iff (by positivity)]
  rcases List.mem_cons.mp among with rfl | later
  · cases d <;> exact le_refl _
  · cases d <;> exact Tick.exactPrice_le (List.rel_of_pairwise_cons h later)

end Direction

/-- The claims of the orders a plan reaches, with the depths they are reached at. -/
def Plan.reached (p : Plan) : List (Claim × ℚ) :=
  p.touches.map fun t => (t.claim, t.baseBefore.value)

namespace Walk

variable {u : Units} {w next : Walk} {plan : Plan}

/-! ### What is left -/

/-- What is left of the venue's book, laid out from the base matched so far. -/
def levelsLeft (u : Units) (w : Walk) : List (Stretch Venue.Level) :=
  resumed (fun l => levelDepth u w.plan.direction l.size.value l)
    (fun l => levelDepth u w.plan.direction w.venueLeft.value l) w.plan.base.value w.venue

/-- What is left of the chain's book, laid out from the base matched so far. -/
def ordersLeft (w : Walk) : List (Stretch Chain.Order) :=
  resumed (fun o => orderDepth w.plan.direction o.quantity.value o)
    (fun o => orderDepth w.plan.direction w.chainLeft.value o) w.plan.base.value w.chain

/-- What is left of the orders that were not reached yet. -/
def untouched (w : Walk) : List (Stretch Chain.Order) :=
  if w.touched then w.ordersLeft.tail else w.ordersLeft

theorem levelsLeft_of_full (h : w.venueLeft = firstSize w.venue) :
    w.levelsLeft u = venueStretches u w.plan.direction w.plan.base.value w.venue := by
  refine resumed_of_eq fun l first => ?_
  obtain ⟨rest, venue⟩ := List.head?_eq_some_iff.mp first
  rw [h, venue, firstSize]

theorem ordersLeft_of_full (h : w.chainLeft = firstQuantity w.chain) :
    w.ordersLeft = chainStretches w.plan.direction w.plan.base.value w.chain := by
  refine resumed_of_eq fun o first => ?_
  obtain ⟨rest, chain⟩ := List.head?_eq_some_iff.mp first
  rw [h, chain, firstQuantity]

theorem Front.levelsLeft_eq (f : Front u w) :
    w.levelsLeft u = ⟨f.level, w.plan.base.value,
        w.plan.base.value + levelDepth u w.plan.direction w.venueLeft.value f.level⟩ ::
      venueStretches u w.plan.direction
        (w.plan.base.value + levelDepth u w.plan.direction w.venueLeft.value f.level)
        w.venue.tail := by
  rw [levelsLeft, f.venue_eq]
  rfl

theorem Front.ordersLeft_eq (f : Front u w) :
    w.ordersLeft = ⟨f.order, w.plan.base.value,
        w.plan.base.value + orderDepth w.plan.direction w.chainLeft.value f.order⟩ ::
      chainStretches w.plan.direction
        (w.plan.base.value + orderDepth w.plan.direction w.chainLeft.value f.order)
        w.chain.tail := by
  rw [ordersLeft, f.chain_eq]
  rfl

theorem base_le_of_mem_levelsLeft {s : Stretch Venue.Level} (among : s ∈ w.levelsLeft u) :
    w.plan.base.value ≤ s.start :=
  start_le_of_mem_resumed (fun _ => depth_nonneg _ _ _) (fun _ => depth_nonneg _ _ _) among

theorem base_le_of_mem_ordersLeft {s : Stretch Chain.Order} (among : s ∈ w.ordersLeft) :
    w.plan.base.value ≤ s.start :=
  start_le_of_mem_resumed (fun _ => depth_nonneg _ _ _) (fun _ => depth_nonneg _ _ _) among

/-! ### The rest of a walk -/

/-- What the rest of a walk adds to its plan: base as far as what is left of both books crosses and
no further, what is left of them up to there in quote, and the claims of the orders it reaches. -/
structure Completes (u : Units) (w : Walk) (plan : Plan) : Prop where
  base_le : w.plan.base.value ≤ plan.base.value
  crosses : ∀ x, w.plan.base.value ≤ x → x < plan.base.value →
    CrossesAt u w.plan.direction (w.levelsLeft u) w.ordersLeft x
  ends : ¬ CrossesAt u w.plan.direction (w.levelsLeft u) w.ordersLeft plan.base.value
  quote_eq : plan.quote.value =
    w.plan.quote.value + worthUpTo (levelPrice u) plan.base.value (w.levelsLeft u)
  chainQuote_eq : plan.chainQuote.value = w.plan.chainQuote.value +
    worthUpTo (fun o => Tick.exactPrice o.tick) plan.base.value w.ordersLeft
  reached_eq : plan.reached = w.plan.reached ++ reachedClaims plan.base.value w.untouched

theorem mem_ordersLeft_of_mem_untouched {s : Stretch Chain.Order} (among : s ∈ w.untouched) :
    s ∈ w.ordersLeft := by
  unfold untouched at among
  split_ifs at among
  · exact List.mem_of_mem_tail among
  · exact among

theorem reachedClaims_of_le {x : ℚ} {orders : List (Stretch Chain.Order)}
    (h : ∀ s ∈ orders, x ≤ s.start) : reachedClaims x orders = [] := by
  unfold reachedClaims
  rw [List.map_eq_nil_iff, List.filter_eq_nil_iff]
  intro s among reaches
  exact absurd (h s among) (not_le.mpr (of_decide_eq_true reaches).2)

/-- A walk that cannot go on is complete. -/
theorem completes_self
    (h : ¬ CrossesAt u w.plan.direction (w.levelsLeft u) w.ordersLeft w.plan.base.value) :
    Completes u w w.plan where
  base_le := le_refl _
  crosses x ge lt := absurd lt (not_lt.mpr ge)
  ends := h
  quote_eq := by
    rw [worthUpTo_eq_zero fun s among => base_le_of_mem_levelsLeft among, add_zero]
  chainQuote_eq := by
    rw [worthUpTo_eq_zero fun s among => base_le_of_mem_ordersLeft among, add_zero]
  reached_eq := by
    rw [reachedClaims_of_le fun s among =>
      base_le_of_mem_ordersLeft (mem_ordersLeft_of_mem_untouched among), List.append_nil]

/-- Where the first level and the first order do not cross, nothing behind them does. -/
theorem not_crossesAt_of_apart (f : Front u w) (apart : ¬ f.Crossing)
    (human : f.human.value = humanPrice u f.order)
    (venueSorted : w.plan.direction.VenueSorted w.venue)
    (chainSorted : w.plan.direction.ChainSorted w.chain) (x : ℚ) :
    ¬ CrossesAt u w.plan.direction (w.levelsLeft u) w.ordersLeft x := by
  rintro ⟨l, o, level, order, crosses⟩
  -- if any order crossed any level, the best ones would
  have level := mem_of_liesAt_resumed level
  have order := mem_of_liesAt_resumed order
  rw [f.venue_eq] at venueSorted level
  rw [f.chain_eq] at chainSorted order
  refine apart (Direction.crosses_iff_value.mpr ?_)
  rw [human]
  exact ((chainSorted.crosses u order).trans crosses).trans (venueSorted.crosses level)

theorem not_crossesAt_of_ranOut (h : w.venue = [] ∨ w.chain = []) (x : ℚ) :
    ¬ CrossesAt u w.plan.direction (w.levelsLeft u) w.ordersLeft x := by
  rintro ⟨l, o, level, order, -⟩
  rcases h with venue | chain
  · exact absurd (venue ▸ mem_of_liesAt_resumed level) (List.not_mem_nil)
  · exact absurd (chain ▸ mem_of_liesAt_resumed order) (List.not_mem_nil)

theorem Front.levelsLeft_of_exhausted (f : Front u w) (exhausted : w.venueLeft.value ≤ 0) :
    w.levelsLeft u = ⟨f.level, w.plan.base.value, w.plan.base.value⟩ ::
      w.passLevel.levelsLeft u := by
  rw [f.levelsLeft_eq, levelDepth, depth_of_nonpos exhausted, add_zero,
    levelsLeft_of_full (w := w.passLevel) rfl]
  rfl

theorem Front.ordersLeft_of_exhausted (f : Front u w) (exhausted : w.chainLeft.value ≤ 0) :
    w.ordersLeft = ⟨f.order, w.plan.base.value, w.plan.base.value⟩ ::
      w.passOrder.ordersLeft := by
  rw [f.ordersLeft_eq, orderDepth, depth_of_nonpos exhausted, add_zero,
    ordersLeft_of_full (w := w.passOrder) rfl]
  rfl

/-- An exhausted level adds nothing. -/
theorem Completes.passLevel (h : Completes u w.passLevel plan) (f : Front u w)
    (exhausted : w.venueLeft.value ≤ 0) : Completes u w plan := by
  have left := f.levelsLeft_of_exhausted exhausted
  have same (x : ℚ) : CrossesAt u w.plan.direction (w.levelsLeft u) w.ordersLeft x ↔
      CrossesAt u w.plan.direction (w.passLevel.levelsLeft u) w.ordersLeft x := by
    simp only [CrossesAt, left, liesAt_cons_of_empty]
  refine ⟨h.base_le, fun x ge lt => (same x).mpr (h.crosses x ge lt), mt (same _).mp h.ends, ?_,
    h.chainQuote_eq, h.reached_eq⟩
  rw [left, worthUpTo_cons, Stretch.lengthUpTo_of_empty (le_refl _), zero_mul, zero_add]
  exact h.quote_eq

theorem reachedClaims_cons_of_empty {s : Stretch Chain.Order} (h : s.stop ≤ s.start) (x : ℚ)
    (rest : List (Stretch Chain.Order)) : reachedClaims x (s :: rest) = reachedClaims x rest := by
  unfold reachedClaims
  rw [List.filter_cons_of_neg]
  simp [not_lt.mpr h]

/-- An exhausted order adds nothing. -/
theorem Completes.passOrder (h : Completes u w.passOrder plan) (f : Front u w)
    (exhausted : w.chainLeft.value ≤ 0) : Completes u w plan := by
  have left := f.ordersLeft_of_exhausted exhausted
  have same (x : ℚ) : CrossesAt u w.plan.direction (w.levelsLeft u) w.ordersLeft x ↔
      CrossesAt u w.plan.direction (w.levelsLeft u) w.passOrder.ordersLeft x := by
    simp only [CrossesAt, left, liesAt_cons_of_empty]
  have claims : reachedClaims plan.base.value w.untouched =
      reachedClaims plan.base.value w.passOrder.untouched := by
    rw [untouched, left]
    split_ifs with touched
    · rfl
    · exact reachedClaims_cons_of_empty (le_refl _) _ _
  refine ⟨h.base_le, fun x ge lt => (same x).mpr (h.crosses x ge lt), mt (same _).mp h.ends,
    h.quote_eq, ?_, ?_⟩
  · rw [left, worthUpTo_cons, Stretch.lengthUpTo_of_empty (le_refl _), zero_mul, zero_add]
    exact h.chainQuote_eq
  · rw [claims]
    exact h.reached_eq

/-! ### A match -/

/-- After an exact match the first level starts later. -/
theorem Match.levelsLeft_eq (m : Match u w next) (exact : m.Exact) :
    next.levelsLeft u = ⟨m.level, w.plan.base.value + m.matched.value,
        w.plan.base.value + levelDepth u w.plan.direction w.venueLeft.value m.level⟩ ::
      venueStretches u w.plan.direction
        (w.plan.base.value + levelDepth u w.plan.direction w.venueLeft.value m.level)
        w.venue.tail := by
  rw [levelsLeft, m.venue_same, direction_of_step (.matching m), m.venue_eq, resumed,
    exact.level_left, exact.base, add_add_sub_cancel]
  rfl

/-- After an exact match the first order starts later. -/
theorem Match.ordersLeft_eq (m : Match u w next) (exact : m.Exact) :
    next.ordersLeft = ⟨m.order, w.plan.base.value + m.matched.value,
        w.plan.base.value + orderDepth w.plan.direction w.chainLeft.value m.order⟩ ::
      chainStretches w.plan.direction
        (w.plan.base.value + orderDepth w.plan.direction w.chainLeft.value m.order)
        w.chain.tail := by
  rw [ordersLeft, m.chain_same, direction_of_step (.matching m), m.chain_eq, resumed,
    exact.order_left, exact.base, add_add_sub_cancel]
  rfl

/-- Past an exact match nothing changes. -/
theorem Match.crossesAt_iff (m : Match u w next) (exact : m.Exact) {x : ℚ}
    (deep : w.plan.base.value + m.matched.value ≤ x) :
    CrossesAt u w.plan.direction (w.levelsLeft u) w.ordersLeft x ↔
      CrossesAt u next.plan.direction (next.levelsLeft u) next.ordersLeft x := by
  have nonneg := exact.matched_pos.le
  simp only [CrossesAt, m.levelsLeft_eq exact, m.ordersLeft_eq exact, m.toFront.levelsLeft_eq,
    m.toFront.ordersLeft_eq, liesAt_advance nonneg deep, direction_of_step (.matching m)]

/-- On the stretch of an exact match the first level and the first order cross. -/
theorem Match.crossesAt (m : Match u w next) (exact : m.Exact)
    (human : m.human.value = humanPrice u m.order) {x : ℚ} (ge : w.plan.base.value ≤ x)
    (lt : x < w.plan.base.value + m.matched.value) :
    CrossesAt u w.plan.direction (w.levelsLeft u) w.ordersLeft x := by
  have crossing := Direction.crosses_iff_value.mp m.crossing
  have level := exact.matched_le_level
  have order := exact.matched_le_order
  refine ⟨m.level, m.order, ?_, ?_, human ▸ crossing⟩
  · rw [m.toFront.levelsLeft_eq]
    exact liesAt_cons.mpr (.inl ⟨⟨ge, by dsimp only; linarith⟩, rfl⟩)
  · rw [m.toFront.ordersLeft_eq]
    exact liesAt_cons.mpr (.inl ⟨⟨ge, by dsimp only; linarith⟩, rfl⟩)

theorem Match.reached_eq (m : Match u w next) :
    next.plan.reached = if w.touched then w.plan.reached
      else w.plan.reached ++ [(⟨m.order.tick, m.order.id⟩, w.plan.base.value)] := by
  rw [Plan.reached, m.extended.touches_eq, Walk.reached]
  split_ifs
  · rfl
  · exact List.map_append

theorem reachedClaims_cons_of_reached {s : Stretch Chain.Order} {x : ℚ}
    (nonempty : s.start < s.stop) (reached : s.start < x) (rest : List (Stretch Chain.Order)) :
    reachedClaims x (s :: rest) =
      (⟨s.item.tick, s.item.id⟩, s.start) :: reachedClaims x rest := by
  unfold reachedClaims
  rw [List.filter_cons_of_pos (by simp [nonempty, reached])]
  rfl

/-- An exact match adds its stretch. -/
theorem Completes.match (h : Completes u next plan) (m : Match u w next) (exact : m.Exact)
    (human : m.human.value = humanPrice u m.order) : Completes u w plan := by
  have nonneg := exact.matched_pos.le
  have positive := exact.matched_pos
  have deep := h.base_le
  rw [exact.base] at deep
  refine ⟨by linarith, fun x ge lt => ?_, mt (m.crossesAt_iff exact deep).mp h.ends, ?_, ?_, ?_⟩
  · -- a depth lies within the stretch that was matched, or the rest of the walk gets to it
    rcases lt_or_ge x (w.plan.base.value + m.matched.value) with within | past
    · exact m.crossesAt exact human ge within
    · exact (m.crossesAt_iff exact past).mpr (h.crosses x (by rwa [exact.base]) lt)
  · rw [h.quote_eq, exact.quote, m.levelsLeft_eq exact, m.toFront.levelsLeft_eq, worthUpTo_cons,
      worthUpTo_cons, Stretch.lengthUpTo_advance m.level _ nonneg deep]
    · ring
    · linarith [exact.matched_le_level]
  · rw [h.chainQuote_eq, exact.chainQuote, m.ordersLeft_eq exact, m.toFront.ordersLeft_eq,
      worthUpTo_cons, worthUpTo_cons, Stretch.lengthUpTo_advance m.order _ nonneg deep]
    · ring
    · linarith [exact.matched_le_order]
  · rw [h.reached_eq, m.reached_eq, untouched, m.touched, if_pos rfl, m.ordersLeft_eq exact,
      untouched, m.toFront.ordersLeft_eq]
    split_ifs with touched
    · rfl
    · -- the order is reached now, and claimed once however many levels it takes
      have first : w.plan.base.value <
          w.plan.base.value + orderDepth w.plan.direction w.chainLeft.value m.order := by
        linarith [exact.matched_le_order]
      rw [reachedClaims_cons_of_reached first (by linarith), List.append_assoc]
      rfl

/-! ### The whole walk -/

/-- Every walk through sorted books that does not round is completed. -/
theorem completes {fuel : Nat} (enough : w.pending ≤ fuel) (positive : 0 < fuel)
    (venueSorted : w.plan.direction.VenueSorted w.venue)
    (chainSorted : w.plan.direction.ChainSorted w.chain) (exact : NeverRounds u fuel w)
    (h : w.run u fuel = .ok plan) : Completes u w plan := by
  refine run_induction (u := u) (motive := fun fuel w plan =>
    w.plan.direction.VenueSorted w.venue → w.plan.direction.ChainSorted w.chain →
      NeverRounds u fuel w → Completes u w plan)
    ?_ ?_ enough positive h venueSorted chainSorted exact
  · intro fuel w plan ends venueSorted chainSorted exact
    cases ends with
    | ranOut empty => exact completes_self (not_crossesAt_of_ranOut empty _)
    | apart f apart =>
      exact completes_self (not_crossesAt_of_apart f apart (f.human_value exact.1) venueSorted
        chainSorted _)
  · intro fuel w next plan step later venueSorted chainSorted exact
    have exactStep := exact.1
    have rest := exact.later step
    cases step_cases step with
    | passLevel f crossing exhausted =>
      exact (later venueSorted.tail chainSorted rest).passLevel f exhausted
    | passOrder f crossing exhausted =>
      exact (later venueSorted chainSorted.tail rest).passOrder f exhausted
    | matching m =>
      have direction := direction_of_step (.matching m)
      refine (later ?_ ?_ rest).match m (m.exact exactStep) (m.toFront.human_value exactStep)
      · rwa [direction, m.venue_same]
      · rwa [direction, m.chain_same]

end Walk

namespace Plan

variable {u : Units} {direction : Direction} {venue : List Venue.Level} {chain : List Chain.Order}
  {plan : Plan}

/-- A sized plan takes the whole crossing volume. Its base is the greatest depth above which both
books have an entry everywhere and the ask's human price is not above the bid's; its quotes are what
the levels and the orders are worth down to that depth; and it reaches the orders that start above
it, in their order. -/
theorem size_maximal (venueSorted : direction.VenueSorted venue)
    (chainSorted : direction.ChainSorted chain)
    (exact : Walk.NeverRounds u (Walk.start direction venue chain).budget
      (Walk.start direction venue chain))
    (sized : Plan.size u direction venue chain = .ok plan) :
    IsGreatest {b : ℚ | ∀ x, 0 ≤ x → x < b → CrossesAt u direction
        (venueStretches u direction 0 venue) (chainStretches direction 0 chain) x}
      plan.base.value ∧
    plan.quote.value =
      worthUpTo (levelPrice u) plan.base.value (venueStretches u direction 0 venue) ∧
    plan.chainQuote.value = worthUpTo (fun o => Tick.exactPrice o.tick) plan.base.value
      (chainStretches direction 0 chain) ∧
    plan.reached = reachedClaims plan.base.value (chainStretches direction 0 chain) := by
  -- nothing is matched before the first step, so what is left then are the whole books
  have nothing : (Walk.start direction venue chain).plan.base.value = 0 := value_zero
  have whole := Walk.completes (Walk.pending_start_le direction venue chain) (Nat.succ_pos _)
    venueSorted chainSorted exact sized
  have levels : (Walk.start direction venue chain).levelsLeft u =
      venueStretches u direction 0 venue := by
    rw [Walk.levelsLeft_of_full rfl, nothing]
    rfl
  have orders : (Walk.start direction venue chain).ordersLeft =
      chainStretches direction 0 chain := by
    rw [Walk.ordersLeft_of_full rfl, nothing]
    rfl
  obtain ⟨base_le, crosses, ends, quote, chainQuote, reached⟩ := whole
  rw [levels, orders] at ends
  rw [levels] at quote
  rw [orders] at chainQuote
  rw [nothing] at base_le
  refine ⟨⟨fun x ge lt => ?_, fun b deeper => ?_⟩, ?_, ?_, ?_⟩
  · have := crosses x (by rwa [nothing]) lt
    rwa [levels, orders] at this
  · by_contra less
    exact ends (deeper _ base_le (not_le.mp less))
  · rw [quote]
    exact (congrArg (· + _) value_zero).trans (zero_add _)
  · rw [chainQuote]
    exact (congrArg (· + _) value_zero).trans (zero_add _)
  · rw [reached, Walk.untouched, orders]
    rfl

/-- Human prices are a hundred times chain prices. The second level and the second order are empty,
the third of each end together, and the fourth level is above the fourth order. -/
theorem size_maximal_of_four_levels :
    let venue : List Venue.Level :=
      [⟨.ofWord 150 0, .ofWord 30 0⟩, ⟨.ofWord 160 0, .zero⟩, ⟨.ofWord 170 0, .ofWord 20 0⟩,
        ⟨.ofWord 181 0, .ofWord 20 0⟩]
    let chain : List Chain.Order :=
      [.fresh 1000000 7 "bid" "maker" (.ofWord 80 0), .fresh 900000 8 "bid" "maker" .zero,
        .fresh 800000 9 "bid" "maker" (.ofWord 18 0), .fresh 800000 10 "bid" "maker" (.ofWord 9 0)]
    Direction.chainBid.VenueSorted venue ∧ Direction.chainBid.ChainSorted chain ∧
      Walk.NeverRounds ⟨8, 6⟩ (Walk.start .chainBid venue chain).budget
        (Walk.start .chainBid venue chain) ∧
      ∃ plan, Plan.size ⟨8, 6⟩ .chainBid venue chain = .ok plan ∧
        plan.base.SameValue (.ofWord 50 0) ∧ plan.claims = [⟨1000000, 7⟩, ⟨800000, 9⟩] ∧
        IsGreatest {b : ℚ | ∀ x, 0 ≤ x → x < b → CrossesAt ⟨8, 6⟩ .chainBid
          (venueStretches ⟨8, 6⟩ .chainBid 0 venue) (chainStretches .chainBid 0 chain) x}
          plan.base.value ∧
        plan.reached = reachedClaims plan.base.value (chainStretches .chainBid 0 chain) := by
  intro venue chain
  have venueSorted : Direction.chainBid.VenueSorted venue := by
    show List.Pairwise _ _
    decide
  have chainSorted : Direction.chainBid.ChainSorted chain := by
    show List.Pairwise _ _
    decide
  have exact : Walk.NeverRounds ⟨8, 6⟩ (Walk.start .chainBid venue chain).budget
      (Walk.start .chainBid venue chain) := by decide +kernel
  obtain ⟨plan, sized, base, claims⟩ := exists_eq_ok
    (x := Plan.size ⟨8, 6⟩ .chainBid venue chain)
    (P := fun plan => plan.base.SameValue (.ofWord 50 0) ∧
      plan.claims = [⟨1000000, 7⟩, ⟨800000, 9⟩]) (by decide +kernel)
  obtain ⟨greatest, -, -, reached⟩ := size_maximal venueSorted chainSorted exact sized
  exact ⟨venueSorted, chainSorted, exact, plan, sized, base, claims, greatest, reached⟩

end Plan

end CrossBook.Trade
