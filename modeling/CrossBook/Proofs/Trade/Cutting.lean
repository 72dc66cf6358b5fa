import CrossBook.Proofs.Trade.Exactness
import CrossBook.Proofs.Trade.Steps

/-!
# A plan cut down is the plan of a book cut down

One side of the two books holds base. Cut to a depth, it leads a walk along the same steps until the
depth is matched; the walk over the whole side goes on from there. What it adds begins no earlier
than the depth, so the plan that is cut down leaves all of it out, and prices the stretch up to the
depth as the last step of the other walk does.

## Main definitions

* `Trade.Holding`, `Trade.CutTo`, `Trade.Direction.CutTo` — a side cut to a depth
* `Trade.Walk.Shortened` — a walk whose side of base is cut
* `Trade.Plan.CutAt` — a plan that has another for its part up to a depth

## Main results

* `Trade.CutTo.sum_eq` — a side cut to a depth is that deep
* `Trade.Walk.Shortened.step` — a walk over a cut side takes the same step, or reaches the depth
* `Trade.Walk.Shortened.run` — it ends with the part of the plan up to the depth
* `Trade.Plan.size_resize` — a plan cut down is the plan sized on the cut side
-/

namespace CrossBook.Trade

open Decimal

/-! ### Cut sides -/

/-- What the entries of a side hold, and the entries that hold another amount. -/
structure Holding (α : Type) where
  amount : α → Decimal
  withAmount : α → Decimal → α
  amount_withAmount : ∀ a q, amount (withAmount a q) = q
  withAmount_amount : ∀ a, withAmount a (amount a) = a

/-- Levels hold their size. -/
def Holding.levels : Holding Venue.Level where
  amount l := l.size
  withAmount l q := { l with size := q }
  amount_withAmount _ _ := rfl
  withAmount_amount _ := rfl

/-- Orders hold their quantity. -/
def Holding.orders : Holding Chain.Order where
  amount o := o.quantity
  withAmount o q := { o with quantity := q }
  amount_withAmount _ _ := rfl
  withAmount_amount _ := rfl

section Sides

variable {α : Type} {holding : Holding α} {depth taken : ℚ}
  {left left' next next' : Decimal} {a : α} {items items' rest : List α}

/-- A side cut to a depth: entries are kept while the side is not as deep, the one that makes it as
deep is shortened, and those behind it are left out. Entries that hold nothing add no depth. -/
inductive CutTo (holding : Holding α) : ℚ → List α → List α → Prop where
  | last {depth : ℚ} {a : α} {rest : List α} {q : Decimal}
      (enough : depth ≤ (holding.amount a).value) (exact : q.value = depth) :
      CutTo holding depth (a :: rest) [holding.withAmount a q]
  | keep {depth : ℚ} {a : α} {rest rest' : List α} (less : (holding.amount a).value < depth)
      (behind : CutTo holding (depth - max 0 (holding.amount a).value) rest rest') :
      CutTo holding depth (a :: rest) (a :: rest')

/-- A side cut to a depth is that deep: what its entries hold adds up to it. -/
theorem CutTo.sum_eq (cut : CutTo holding depth items items') (positive : 0 < depth) :
    (items'.map fun a => max 0 (holding.amount a).value).sum = depth := by
  induction cut with
  | last enough exact =>
    rw [List.map_singleton, List.sum_singleton, holding.amount_withAmount, exact,
      max_eq_right positive.le]
  | keep less behind ih =>
    rw [List.map_cons, List.sum_cons, ih (sub_pos.mpr (max_lt positive less))]
    ring

/-- The amount of the first entry. -/
def Holding.first (holding : Holding α) : List α → Decimal
  | [] => .zero
  | a :: _ => holding.amount a

/-- What is left of a side and of the side cut to a depth, with what is left of their first entries:
the entry that makes the side as deep is the last, and any earlier one is left as it is. -/
inductive Shortens (holding : Holding α) (depth : ℚ) (left left' : Decimal) :
    List α → List α → Prop where
  | last {a : α} {rest : List α} {q : Decimal} (enough : depth ≤ left.value)
      (exact : left'.value = depth) :
      Shortens holding depth left left' (a :: rest) [holding.withAmount a q]
  | keep {a : α} {rest rest' : List α} (less : left.value < depth) (same : left'.value = left.value)
      (behind : CutTo holding (depth - max 0 left.value) rest rest') :
      Shortens holding depth left left' (a :: rest) (a :: rest')

theorem CutTo.shortens (cut : CutTo holding depth items items') :
    Shortens holding depth (holding.first items) (holding.first items') items items' := by
  cases cut with
  | last enough exact => exact .last enough (by rwa [Holding.first, holding.amount_withAmount])
  | keep less behind => exact .keep less rfl behind

namespace Shortens

/-- The first entry is the same but for its amount. -/
theorem exists_cons (s : Shortens holding depth left left' (a :: rest) items') :
    ∃ q rest', items' = holding.withAmount a q :: rest' := by
  cases s with
  | last enough exact => exact ⟨_, [], rfl⟩
  | keep less same behind => exact ⟨holding.amount a, _, by rw [holding.withAmount_amount]⟩

theorem length_pos (s : Shortens holding depth left left' items items') : 0 < items'.length := by
  cases s <;> exact Nat.succ_pos _

theorem left_pos (s : Shortens holding depth left left' items items') (positive : 0 < depth)
    (held : 0 < left.value) : 0 < left'.value := by
  cases s with
  | last enough exact => rwa [exact]
  | keep less same behind => rwa [same]

/-- An exhausted entry is kept, and the rest of the side is cut. -/
theorem pass (s : Shortens holding depth left left' (a :: rest) items') (positive : 0 < depth)
    (exhausted : left.value ≤ 0) :
    ∃ rest', items' = a :: rest' ∧ left'.value ≤ 0 ∧ CutTo holding depth rest rest' := by
  cases s with
  | last enough exact => linarith
  | keep less same behind =>
    rw [max_eq_left exhausted, sub_zero] at behind
    exact ⟨_, rfl, by rwa [same], behind⟩

/-- The cut side gives as much as the whole side, up to the depth. -/
theorem min_eq (s : Shortens holding depth left left' items items') (x : ℚ) :
    min left'.value x = min (min left.value x) depth := by
  cases s with
  | last enough exact => rw [exact, min_right_comm, min_eq_right enough]
  | keep less same behind =>
    rw [same, min_eq_left (a := min left.value x) ((min_le_left _ _).trans less.le)]

/-- Less than the depth is taken from both sides alike. -/
theorem take (s : Shortens holding depth left left' items items') (nonneg : 0 ≤ taken)
    (le : taken ≤ left.value) (next_eq : next.value = left.value - taken)
    (next_eq' : next'.value = left'.value - taken) :
    Shortens holding (depth - taken) next next' items items' := by
  cases s with
  | last enough exact => exact .last (by linarith) (by rw [next_eq', exact])
  | keep less same behind =>
    refine .keep (by linarith) (by rw [next_eq', next_eq, same]) ?_
    have depth_eq : depth - taken - max 0 next.value = depth - max 0 left.value := by
      rw [max_eq_right (by linarith), max_eq_right (by linarith), next_eq]
      ring
    rwa [depth_eq]

/-- An entry that makes the side as deep is the last one. -/
theorem last_of_le (s : Shortens holding depth left left' (a :: rest) items')
    (le : depth ≤ left.value) : left'.value = depth ∧ ∃ q, items' = [holding.withAmount a q] := by
  cases s with
  | last enough exact => exact ⟨exact, _, rfl⟩
  | keep less same behind => linarith

end Shortens

end Sides

/-- One side of the books, the one that holds base, is cut to a depth. -/
def Direction.CutTo (d : Direction) (depth : ℚ) (venue venue' : List Venue.Level)
    (chain chain' : List Chain.Order) : Prop :=
  match d with
  | chainBid => Trade.CutTo .levels depth venue venue' ∧ chain' = chain
  | venueBid => Trade.CutTo .orders depth chain chain' ∧ venue' = venue

/-! ### Parts of plans -/

namespace Plan

variable {p q r q' : Plan} {b quote matched matched' venuePrice venuePrice' chainPrice proceeds
  proceeds' cost cost' : Decimal}

/-- Another plan is the part of a plan up to a depth: it claims what is reached before the depth,
and its cost is that of the last step that begins before, up to the depth. -/
structure CutAt (b : Decimal) (p part : Plan) : Prop where
  claims_eq : (p.touches.filter fun t => t.baseBefore < b).map (·.claim) = part.claims
  cost_eq : ∃ (s : Step) (matched cost : Decimal),
    (p.steps.filter fun s => s.baseBefore < b).getLast? = some s ∧
      matched.value = b.value - s.baseBefore.value ∧ matched.mul? s.chainPrice = some cost ∧
      s.chainQuoteBefore.add? cost = some part.chainQuote

/-- A match that passes a depth has the match that ends there for its part. -/
theorem Extends.cutAt (consistent : p.Consistent) (short : p.base.value < b.value)
    (extended : p.Extends matched venuePrice chainPrice proceeds cost q)
    (part : p.Extends matched' venuePrice' chainPrice proceeds' cost' q')
    (reaches : matched'.value = b.value - p.base.value) : q.CutAt b q' := by
  constructor
  · rw [extended.touches_eq, claims, part.touches_eq, List.filter_eq_self.mpr]
    intro t among
    have within := (consistent.touches_within t among).2
    exact decide_eq_true (lt_iff_value.mpr (within.trans_lt short))
  · have begins : decide (p.base < b) = true := decide_eq_true (lt_iff_value.mpr short)
    refine ⟨⟨p.base, p.chainQuote, chainPrice⟩, matched', cost', ?_, reaches, part.cost_eq,
      part.chainQuote_eq⟩
    rw [extended.steps_eq, List.filter_append, List.filter_singleton, begins]
    exact List.getLast?_concat

/-- What is added past the depth changes no part before it. -/
theorem CutAt.touch (h : p.CutAt b r) (le : b.value ≤ p.base.value) (o : Chain.Order) :
    (p.touch o).CutAt b r := by
  have later : decide (p.base < b) = false :=
    decide_eq_false (fun lt => absurd (lt_iff_value.mp lt) (not_lt.mpr le))
  refine ⟨?_, h.cost_eq⟩
  rw [← h.claims_eq, Plan.touch, List.filter_append, List.filter_singleton, later]
  simp

theorem CutAt.extends (h : p.CutAt b r) (le : b.value ≤ p.base.value)
    (extended : p.Extends matched venuePrice chainPrice proceeds cost q) : q.CutAt b r := by
  have later : decide (p.base < b) = false :=
    decide_eq_false (fun lt => absurd (lt_iff_value.mp lt) (not_lt.mpr le))
  obtain ⟨s, matched', cost', last, rest⟩ := h.cost_eq
  refine ⟨by rw [extended.touches_eq, h.claims_eq], s, matched', cost', ?_, rest⟩
  rw [← last, extended.steps_eq, List.filter_append, List.filter_singleton, later]
  simp

/-- A plan can be cut down to a depth it has a part for, and has the part's claims and its cost in
whole units. -/
theorem CutAt.resize (h : p.CutAt b r) (consistent : p.Consistent) (nonneg : 0 ≤ b.value)
    (quote : Decimal) :
    ∃ cut, p.resize b quote = .ok cut ∧ cut.claims = r.claims ∧
      cut.chainQuote = r.chainQuote.trunc := by
  obtain ⟨s, matched, cost, last, reaches, product, sum⟩ := h.cost_eq
  have among := (List.mem_filter.mp (List.mem_of_getLast? last)).1
  obtain ⟨rest, difference⟩ := exists_minus nonneg (consistent.steps_nonneg s among).1
  -- what the depth takes of the last step is the base that was matched there
  have rounds := roundsTo_of_sub? difference
  rw [← reaches] at rounds
  have same : rest.SameValue matched := sameValue_iff_value.mpr rounds.value_eq
  have repriced_eq : repriced b (p.steps.filter fun s => s.baseBefore < b) =
      .ok r.chainQuote.trunc := by
    rw [repriced, last]
    refine bind_eq_ok.mpr ⟨rest, orAbort_eq_ok.mpr difference, ?_⟩
    refine bind_eq_ok.mpr ⟨cost, orAbort_eq_ok.mpr ((same.mul?_eq _).trans product), ?_⟩
    exact bind_eq_ok.mpr ⟨r.chainQuote, orAbort_eq_ok.mpr sum, rfl⟩
  exact ⟨_, bind_eq_ok.mpr ⟨_, repriced_eq, rfl⟩, h.claims_eq, rfl⟩

end Plan

namespace Walk

variable {u : Units} {b left proceeds cost : Decimal} {w w' next next' : Walk}

/-! ### Walks over cut sides -/

/-- The front of a walk with other levels, of which the first is the same but for its amount. -/
def Front.atLevel (f : Front u w) (q : Decimal) (rest : List Venue.Level) (left : Decimal) :
    Front u { w with venue := Holding.levels.withAmount f.level q :: rest, venueLeft := left } :=
  ⟨Holding.levels.withAmount f.level q, f.order, f.chainPrice, f.human, rfl, f.chain_eq, f.onSide,
    f.price_eq, f.human_eq⟩

/-- The front of a walk with other orders, of which the first is the same but for its amount. -/
def Front.atOrder (f : Front u w) (q : Decimal) (rest : List Chain.Order) (left : Decimal) :
    Front u { w with chain := Holding.orders.withAmount f.order q :: rest, chainLeft := left } :=
  ⟨f.level, Holding.orders.withAmount f.order q, f.chainPrice, f.human, f.venue_eq, rfl, f.onSide,
    f.price_eq, f.human_eq⟩

/-- A match with a level of another size, where the level holds base. -/
def Match.atLevel (m : Match u w next) (side : w.plan.direction = .chainBid) {q : Decimal}
    {rest : List Venue.Level} (left_pos : 0 < left.value)
    (extended : (w.reached m.order).Extends (left.min m.chainBase) m.venuePrice m.chainPrice
      proceeds cost next'.plan)
    (difference : left.sub? (left.min m.chainBase) = some next'.venueLeft)
    (taken : quoteLeft w.chainLeft m.chainBase (left.min m.chainBase) m.chainPrice =
      .ok next'.chainLeft)
    (venue_same : next'.venue = Holding.levels.withAmount m.level q :: rest)
    (chain_same : next'.chain = w.chain) (touched : next'.touched = true) :
    Match u { w with venue := Holding.levels.withAmount m.level q :: rest, venueLeft := left }
      next' where
  toFront := m.toFront.atLevel q rest left
  crossing := m.crossing
  venueLeft_pos := left_pos
  chainLeft_pos := m.chainLeft_pos
  venuePrice := m.venuePrice
  venueBase := left
  chainBase := m.chainBase
  proceeds := proceeds
  cost := cost
  venuePrice_eq := m.venuePrice_eq
  venueBase_eq := by
    unfold Walk.venueBase
    rw [side]
  chainBase_eq := m.chainBase_eq
  extended := extended
  leaves := by
    unfold Leaves
    rw [side]
    exact ⟨orAbort_eq_ok.mpr difference, taken⟩
  venue_same := venue_same
  chain_same := chain_same
  touched := touched

/-- A match with an order of another quantity, where the order holds base. -/
def Match.atOrder (m : Match u w next) (side : w.plan.direction = .venueBid) {q : Decimal}
    {rest : List Chain.Order} (left_pos : 0 < left.value)
    (extended : (w.reached m.order).Extends (m.venueBase.min left) m.venuePrice m.chainPrice
      proceeds cost next'.plan)
    (difference : left.sub? (m.venueBase.min left) = some next'.chainLeft)
    (taken : quoteLeft w.venueLeft m.venueBase (m.venueBase.min left) m.venuePrice =
      .ok next'.venueLeft)
    (venue_same : next'.venue = w.venue)
    (chain_same : next'.chain = Holding.orders.withAmount m.order q :: rest)
    (touched : next'.touched = true) :
    Match u { w with chain := Holding.orders.withAmount m.order q :: rest, chainLeft := left }
      next' where
  toFront := m.toFront.atOrder q rest left
  crossing := m.crossing
  venueLeft_pos := m.venueLeft_pos
  chainLeft_pos := left_pos
  venuePrice := m.venuePrice
  venueBase := m.venueBase
  chainBase := left
  proceeds := proceeds
  cost := cost
  venuePrice_eq := m.venuePrice_eq
  venueBase_eq := m.venueBase_eq
  chainBase_eq := by
    unfold Walk.chainBase
    rw [side]
  extended := extended
  leaves := by
    unfold Leaves
    rw [side]
    exact ⟨orAbort_eq_ok.mpr difference, taken⟩
  venue_same := venue_same
  chain_same := chain_same
  touched := touched

/-- A match leaves the first level and the first order where they are. -/
def Match.after (m : Match u w next) : Front u next where
  level := m.level
  order := m.order
  chainPrice := m.chainPrice
  human := m.human
  venue_eq := by
    rw [m.venue_same]
    exact m.venue_eq
  chain_eq := by
    rw [m.chain_same]
    exact m.chain_eq
  onSide := by
    rw [direction_of_step (.matching m)]
    exact m.onSide
  price_eq := m.price_eq
  human_eq := m.human_eq

/-- In one direction levels hold base, and orders hold quote. -/
theorem Match.sides_chainBid (m : Match u w next) (side : w.plan.direction = .chainBid) :
    m.venueBase = w.venueLeft ∧ w.chainLeft.div? m.chainPrice = some m.chainBase ∧
      w.venueLeft.sub? m.matched = some next.venueLeft ∧
      quoteLeft w.chainLeft m.chainBase m.matched m.chainPrice = .ok next.chainLeft :=
  (m.sides.resolve_right fun other => by simp [side] at other).2

/-- In the other one orders hold base, and levels hold quote. -/
theorem Match.sides_venueBid (m : Match u w next) (side : w.plan.direction = .venueBid) :
    m.chainBase = w.chainLeft ∧ w.venueLeft.div? m.venuePrice = some m.venueBase ∧
      w.chainLeft.sub? m.matched = some next.chainLeft ∧
      quoteLeft w.venueLeft m.venueBase m.matched m.venuePrice = .ok next.venueLeft :=
  (m.sides.resolve_left fun other => by simp [side] at other).2

/-- A match that does not round takes its base from the side that holds base. -/
theorem Match.venueLeft_value (m : Match u w next) (exact : ∀ o ∈ w.operations u, o.IsExact)
    (side : w.plan.direction = .chainBid) :
    next.venueLeft.value = w.venueLeft.value - m.matched.value := by
  have operations := (m.operations_exact exact).2
  rw [side] at operations
  obtain ⟨-, -, difference, -⟩ := m.sides_chainBid side
  exact Operation.difference_value (operations.2 _ List.mem_cons_self) difference

theorem Match.chainLeft_value (m : Match u w next) (exact : ∀ o ∈ w.operations u, o.IsExact)
    (side : w.plan.direction = .venueBid) :
    next.chainLeft.value = w.chainLeft.value - m.matched.value := by
  have operations := (m.operations_exact exact).2
  rw [side] at operations
  obtain ⟨-, -, difference, -⟩ := m.sides_venueBid side
  exact Operation.difference_value (operations.2 _ List.mem_cons_self) difference

/-- The walk is at an exhausted level with none behind it, or at an exhausted order with none. -/
inductive Over (u : Units) (w : Walk) : Prop where
  | level (f : Front u w) (last : w.venue = [f.level]) (exhausted : w.venueLeft.value ≤ 0)
  | order (f : Front u w) (last : w.chain = [f.order]) (exhausted : w.chainLeft.value ≤ 0)

/-- Such a walk adds nothing to its plan, and it does not fail. -/
theorem Over.run (h : w.Over u) (fuel : ℕ) : w.run u fuel = .ok w.plan := by
  induction fuel generalizing w with
  | zero => rfl
  | succ fuel ih =>
    cases h with
    | level f last exhausted =>
      by_cases crossing : f.Crossing
      · have none : w.passLevel.venue = [] := by rw [passLevel, last, List.tail_cons]
        rw [run_of_more (f.step_passLevel crossing exhausted)]
        exact run_of_ranOut (.inl none) fuel
      · exact run_of_finished (f.step_apart crossing) fuel
    | order f last exhausted =>
      by_cases crossing : f.Crossing
      · rcases le_or_gt w.venueLeft.value 0 with levelOut | held
        · -- levels are passed as well, as long as they are exhausted
          rw [run_of_more (f.step_passLevel crossing levelOut)]
          cases levels : w.venue.tail with
          | nil => exact run_of_ranOut (.inl levels) fuel
          | cons level rest =>
            exact ih (.order ⟨level, f.order, f.chainPrice, f.human, by rw [passLevel, levels]; rfl,
              f.chain_eq, f.onSide, f.price_eq, f.human_eq⟩ last exhausted)
        · have none : w.passOrder.chain = [] := by rw [passOrder, last, List.tail_cons]
          rw [run_of_more (f.step_passOrder crossing held exhausted)]
          exact run_of_ranOut (.inr none) fuel
      · exact run_of_finished (f.step_apart crossing) fuel

/-- A walk that has not matched a depth yet, and the same walk with its side of base cut to it. -/
inductive Shortened (b : Decimal) (w : Walk) : Walk → Prop where
  | levels {left : Decimal} {venue : List Venue.Level} (side : w.plan.direction = .chainBid)
      (short : w.plan.base.value < b.value)
      (levels : Shortens .levels (b.value - w.plan.base.value) w.venueLeft left w.venue venue) :
      Shortened b w { w with venue := venue, venueLeft := left }
  | orders {left : Decimal} {chain : List Chain.Order} (side : w.plan.direction = .venueBid)
      (short : w.plan.base.value < b.value)
      (orders : Shortens .orders (b.value - w.plan.base.value) w.chainLeft left w.chain chain) :
      Shortened b w { w with chain := chain, chainLeft := left }

/-- A walk that has matched a depth, with the part of its plan up to there as the plan of another
walk, which is over. -/
structure Reaches (u : Units) (b : Decimal) (w w' : Walk) : Prop where
  base_le : b.value ≤ w.plan.base.value
  part : w.plan.CutAt b w'.plan
  ended : w'.Over u

theorem firstSize_eq_first : firstSize = Holding.levels.first := by
  funext levels
  cases levels <;> rfl

theorem firstQuantity_eq_first : firstQuantity = Holding.orders.first := by
  funext orders
  cases orders <;> rfl

theorem Shortened.passLevel (h : Shortened b w w') (f : Front u w) (crossing : f.Crossing)
    (exhausted : w.venueLeft.value ≤ 0) :
    ∃ next', w'.step u = .ok (.more next') ∧ Shortened b w.passLevel next' := by
  cases h with
  | levels side short levels =>
    rw [f.venue_eq] at levels
    obtain ⟨rest, rfl, void, behind⟩ := levels.pass (sub_pos.mpr short) exhausted
    have later := behind.shortens
    rw [← firstSize_eq_first] at later
    exact ⟨_, (f.atLevel f.level.size rest _).step_passLevel crossing void,
      .levels side short later⟩
  | orders side short orders =>
    rw [f.chain_eq] at orders
    obtain ⟨q, rest, rfl⟩ := orders.exists_cons
    rw [← f.chain_eq] at orders
    exact ⟨_, (f.atOrder q rest _).step_passLevel crossing exhausted, .orders side short orders⟩

theorem Shortened.passOrder (h : Shortened b w w') (f : Front u w) (crossing : f.Crossing)
    (held : 0 < w.venueLeft.value) (exhausted : w.chainLeft.value ≤ 0) :
    ∃ next', w'.step u = .ok (.more next') ∧ Shortened b w.passOrder next' := by
  cases h with
  | levels side short levels =>
    have held' := levels.left_pos (sub_pos.mpr short) held
    rw [f.venue_eq] at levels
    obtain ⟨q, rest, rfl⟩ := levels.exists_cons
    rw [← f.venue_eq] at levels
    exact ⟨_, (f.atLevel q rest _).step_passOrder crossing held' exhausted,
      .levels side short levels⟩
  | orders side short orders =>
    rw [f.chain_eq] at orders
    obtain ⟨rest, rfl, void, behind⟩ := orders.pass (sub_pos.mpr short) exhausted
    have later := behind.shortens
    rw [← firstQuantity_eq_first] at later
    exact ⟨_, (f.atOrder f.order.quantity rest _).step_passOrder crossing held void,
      .orders side short later⟩

/-- The base of a match that passes a depth, up to there, makes the part of its plan. -/
theorem Match.cutAt (m : Match u w next) (consistent : w.Consistent)
    (short : w.plan.base.value < b.value) {venuePrice matched : Decimal} {part : Plan}
    (extended : (w.reached m.order).Extends matched venuePrice m.chainPrice proceeds cost part)
    (reaches : matched.value = b.value - w.plan.base.value) : next.plan.CutAt b part := by
  obtain ⟨-, base, -⟩ := amounts_reached w m.order
  rw [← base] at short reaches
  exact m.extended.cutAt (consistent.reached m.order).1 short extended reaches

/-- A match of the whole walk is one of the walk over levels that are cut, or that walk matches what
is left of the depth and is over. -/
theorem Match.over_cutLevels {venue : List Venue.Level} (m : Match u w next)
    (exact : ∀ o ∈ w.operations u, o.IsExact) (consistent : w.Consistent)
    (side : w.plan.direction = .chainBid) (short : w.plan.base.value < b.value)
    (levels : Shortens .levels (b.value - w.plan.base.value) w.venueLeft left w.venue venue)
    (exact' : ∀ o ∈ { w with venue := venue, venueLeft := left }.operations u, o.IsExact) :
    ∃ next', { w with venue := venue, venueLeft := left }.step u = .ok (.more next') ∧
      (Shortened b next next' ∨ Reaches u b next next') := by
  have depth_pos := sub_pos.mpr short
  have base := (m.exact exact).base
  have left_pos := levels.left_pos depth_pos m.venueLeft_pos
  obtain ⟨venueBase, -, -, taken⟩ := m.sides_chainBid side
  have matched_le : m.matched.value ≤ w.venueLeft.value := by
    rw [m.matched_value, venueBase]
    exact min_le_left _ _
  rw [m.venue_eq] at levels
  obtain ⟨q, rest, rfl⟩ := levels.exists_cons
  have cut : (left.min m.chainBase).value = min m.matched.value (b.value - w.plan.base.value) := by
    rw [value_min, levels.min_eq, m.matched_value, venueBase]
  have nonneg : 0 ≤ (left.min m.chainBase).value := by
    rw [cut]
    exact le_min m.matched_nonneg depth_pos.le
  obtain ⟨venueLeft, difference⟩ := exists_minus left_pos.le nonneg
  by_cases less : m.matched.value < b.value - w.plan.base.value
  · -- both walks match the same
    rw [min_eq_left less.le] at cut
    have same : (left.min m.chainBase).SameValue m.matched := sameValue_iff_value.mpr cut
    let next' : Walk :=
      { next with venue := Holding.levels.withAmount m.level q :: rest, venueLeft := venueLeft }
    let m' : Match u _ next' := m.atLevel side left_pos (m.extended.of_sameValue same) difference
      (quoteLeft_of_sameValue taken same) rfl m.chain_same m.touched
    have left_eq : venueLeft.value = left.value - m.matched.value := by
      rw [← cut]
      exact m'.venueLeft_value exact' side
    refine ⟨next', m'.step_eq, .inl ?_⟩
    refine .levels ((direction_of_step (.matching m)).trans side) (by linarith) ?_
    rw [base, ← sub_sub, m.venue_same, m.venue_eq]
    exact levels.take m.matched_nonneg matched_le (m.venueLeft_value exact side) left_eq
  · -- the cut level gives the rest of the depth, and there is none behind it
    have passes := not_lt.mp less
    rw [min_eq_right passes] at cut
    obtain ⟨left_eq, q', only⟩ := levels.last_of_le (passes.trans matched_le)
    obtain ⟨-, rfl⟩ := List.cons.inj only
    obtain ⟨proceeds, cost, part, extended⟩ :=
      m.extended.exists_smaller nonneg (cut.trans_le passes)
    obtain ⟨chainLeft, taken⟩ := exists_quoteLeft m.chainBase m.chainLeft_pos.le
      m.chainPrice_pos.le nonneg extended.cost_eq
    let next' : Walk :=
      ⟨[Holding.levels.withAmount m.level q], w.chain, venueLeft, chainLeft, true, part⟩
    let m' : Match u _ next' := m.atLevel side left_pos extended difference taken rfl rfl rfl
    have exhausted : venueLeft.value = left.value - (left.min m.chainBase).value :=
      m'.venueLeft_value exact' side
    rw [cut, left_eq, sub_self] at exhausted
    refine ⟨next', m'.step_eq, .inr ⟨by linarith, m.cutAt consistent short extended cut, ?_⟩⟩
    exact .level m'.after rfl exhausted.le

/-- A match of the whole walk is one of the walk over orders that are cut, or that walk matches what
is left of the depth and is over. -/
theorem Match.over_cutOrders {chain : List Chain.Order} (m : Match u w next)
    (exact : ∀ o ∈ w.operations u, o.IsExact) (consistent : w.Consistent)
    (side : w.plan.direction = .venueBid) (short : w.plan.base.value < b.value)
    (orders : Shortens .orders (b.value - w.plan.base.value) w.chainLeft left w.chain chain)
    (exact' : ∀ o ∈ { w with chain := chain, chainLeft := left }.operations u, o.IsExact) :
    ∃ next', { w with chain := chain, chainLeft := left }.step u = .ok (.more next') ∧
      (Shortened b next next' ∨ Reaches u b next next') := by
  have depth_pos := sub_pos.mpr short
  have base := (m.exact exact).base
  have left_pos := orders.left_pos depth_pos m.chainLeft_pos
  obtain ⟨chainBase, quotient, -, taken⟩ := m.sides_venueBid side
  have price_pos := m.venuePrice_pos side (value_ne_zero_of_div? quotient)
  have matched_le : m.matched.value ≤ w.chainLeft.value := by
    rw [m.matched_value, chainBase]
    exact min_le_right _ _
  rw [m.chain_eq] at orders
  obtain ⟨q, rest, rfl⟩ := orders.exists_cons
  have cut : (m.venueBase.min left).value = min m.matched.value (b.value - w.plan.base.value) := by
    rw [value_min, min_comm, orders.min_eq, m.matched_value, chainBase, min_comm w.chainLeft.value]
  have nonneg : 0 ≤ (m.venueBase.min left).value := by
    rw [cut]
    exact le_min m.matched_nonneg depth_pos.le
  obtain ⟨chainLeft, difference⟩ := exists_minus left_pos.le nonneg
  by_cases less : m.matched.value < b.value - w.plan.base.value
  · -- both walks match the same
    rw [min_eq_left less.le] at cut
    have same : (m.venueBase.min left).SameValue m.matched := sameValue_iff_value.mpr cut
    let next' : Walk :=
      { next with chain := Holding.orders.withAmount m.order q :: rest, chainLeft := chainLeft }
    let m' : Match u _ next' := m.atOrder side left_pos (m.extended.of_sameValue same) difference
      (quoteLeft_of_sameValue taken same) m.venue_same rfl m.touched
    have left_eq : chainLeft.value = left.value - m.matched.value := by
      rw [← cut]
      exact m'.chainLeft_value exact' side
    refine ⟨next', m'.step_eq, .inl ?_⟩
    refine .orders ((direction_of_step (.matching m)).trans side) (by linarith) ?_
    rw [base, ← sub_sub, m.chain_same, m.chain_eq]
    exact orders.take m.matched_nonneg matched_le (m.chainLeft_value exact side) left_eq
  · -- the cut order gives the rest of the depth, and there is none behind it
    have passes := not_lt.mp less
    rw [min_eq_right passes] at cut
    obtain ⟨left_eq, q', only⟩ := orders.last_of_le (passes.trans matched_le)
    obtain ⟨-, rfl⟩ := List.cons.inj only
    obtain ⟨proceeds, cost, part, extended⟩ :=
      m.extended.exists_smaller nonneg (cut.trans_le passes)
    obtain ⟨venueLeft, taken⟩ := exists_quoteLeft m.venueBase m.venueLeft_pos.le price_pos.le nonneg
      extended.proceeds_eq
    let next' : Walk :=
      ⟨w.venue, [Holding.orders.withAmount m.order q], venueLeft, chainLeft, true, part⟩
    let m' : Match u _ next' := m.atOrder side left_pos extended difference taken rfl rfl rfl
    have exhausted : chainLeft.value = left.value - (m.venueBase.min left).value :=
      m'.chainLeft_value exact' side
    rw [cut, left_eq, sub_self] at exhausted
    refine ⟨next', m'.step_eq, .inr ⟨by linarith, m.cutAt consistent short extended cut, ?_⟩⟩
    exact .order m'.after rfl exhausted.le

/-- The walk over the cut side takes the same step, or it reaches the depth. -/
theorem Shortened.step (h : Shortened b w w') (exact : ∀ o ∈ w.operations u, o.IsExact)
    (exact' : ∀ o ∈ w'.operations u, o.IsExact) (consistent : w.Consistent)
    (step : w.step u = .ok (.more next)) :
    ∃ next', w'.step u = .ok (.more next') ∧ (Shortened b next next' ∨ Reaches u b next next') := by
  cases step_cases step with
  | passLevel f crossing exhausted =>
    obtain ⟨next', step', shortened⟩ := h.passLevel f crossing exhausted
    exact ⟨next', step', .inl shortened⟩
  | passOrder f crossing exhausted =>
    obtain ⟨next', step', shortened⟩ :=
      h.passOrder f crossing (f.venueLeft_pos crossing step) exhausted
    exact ⟨next', step', .inl shortened⟩
  | matching m =>
    cases h with
    | levels side short levels => exact m.over_cutLevels exact consistent side short levels exact'
    | orders side short orders => exact m.over_cutOrders exact consistent side short orders exact'

/-! ### The whole walk -/

theorem Shortened.short (h : Shortened b w w') : w.plan.base.value < b.value := by
  cases h with
  | levels side short levels => exact short
  | orders side short orders => exact short

/-- A cut side has an entry. -/
theorem Shortened.pending_pos (h : Shortened b w w') : 0 < w'.pending := by
  unfold pending
  cases h with
  | levels side short levels =>
    have := levels.length_pos
    dsimp only
    omega
  | orders side short orders =>
    have := orders.length_pos
    dsimp only
    omega

/-- A step past a depth leaves the part of the plan before it as it is. -/
theorem cutAt_of_step {part : Plan} (le : b.value ≤ w.plan.base.value) (h : w.plan.CutAt b part)
    (step : Step u w (.more next)) :
    b.value ≤ next.plan.base.value ∧ next.plan.CutAt b part := by
  cases step with
  | passLevel f crossing exhausted => exact ⟨le, h⟩
  | passOrder f crossing exhausted => exact ⟨le, h⟩
  | matching m =>
    have base := (amounts_reached w m.order).2.1
    have reached : (w.reached m.order).CutAt b part := by
      unfold Walk.reached
      by_cases touched : w.touched
      · rwa [if_pos touched]
      · -- the order is reached at the depth or later, which is too late for the part
        rw [if_neg touched]
        exact h.touch le m.order
    exact ⟨le.trans m.base_le, reached.extends (by rwa [base]) m.extended⟩

/-- What a walk adds past a depth leaves the part of its plan before it as it is. -/
theorem Reaches.run {fuel : ℕ} {plan : Plan} (h : Reaches u b w w')
    (ran : w.run u fuel = .ok plan) : plan.CutAt b w'.plan := by
  obtain ⟨last, ⟨-, part⟩, rfl⟩ := run_keeps
    (P := fun x => b.value ≤ x.plan.base.value ∧ x.plan.CutAt b w'.plan)
    (fun ⟨le, holds⟩ step => cutAt_of_step le holds step) ⟨h.base_le, h.part⟩ ran
  exact part

/-- The walk over the cut side ends with the part of the plan up to the depth. -/
theorem Shortened.run {fuel fuel' : ℕ} {plan : Plan} (h : Shortened b w w')
    (exact : NeverRounds u fuel w) (exact' : NeverRounds u fuel' w') (consistent : w.Consistent)
    (enough : w'.pending ≤ fuel') (ran : w.run u fuel = .ok plan)
    (le : b.value ≤ plan.base.value) : ∃ part, w'.run u fuel' = .ok part ∧ plan.CutAt b part := by
  induction fuel generalizing w w' fuel' with
  | zero =>
    obtain rfl := Except.ok.inj ran
    exact absurd le (not_le.mpr h.short)
  | succ fuel ih =>
    obtain ⟨progress, step, ran⟩ := bind_eq_ok.mp ran
    cases progress with
    | finished ended =>
      -- the whole walk does not end before the depth
      obtain rfl := Except.ok.inj ran
      rw [plan_of_finished (step_cases step)] at le
      exact absurd le (not_le.mpr h.short)
    | more next =>
      have positive := h.pending_pos
      obtain ⟨fuel', rfl⟩ := Nat.exists_eq_succ_of_ne_zero (by omega : fuel' ≠ 0)
      obtain ⟨next', step', rest⟩ := h.step exact.1 exact'.1 consistent step
      rw [run_of_more step']
      rcases rest with shortened | reaches
      · have closer := pending_lt (step_cases step')
        exact ih shortened (exact.later step) (exact'.later step')
          (consistent.step (step_cases step)) (by omega) ran
      · exact ⟨next'.plan, reaches.ended.run fuel', reaches.run ran⟩

theorem shortened_start {d : Direction} {venue venue' : List Venue.Level}
    {chain chain' : List Chain.Order} (positive : 0 < b.value)
    (cut : d.CutTo b.value venue venue' chain chain') :
    Shortened b (start d venue chain) (start d venue' chain') := by
  have nothing : (start d venue chain).plan.base.value = 0 := value_zero
  have short : (start d venue chain).plan.base.value < b.value := by rwa [nothing]
  have depth : b.value - (start d venue chain).plan.base.value = b.value := by
    rw [nothing, sub_zero]
  cases d with
  | chainBid =>
    obtain ⟨levels, rfl⟩ := cut
    have shortens := levels.shortens
    rw [← firstSize_eq_first, ← depth] at shortens
    exact .levels rfl short shortens
  | venueBid =>
    obtain ⟨orders, rfl⟩ := cut
    have shortens := orders.shortens
    rw [← firstQuantity_eq_first, ← depth] at shortens
    exact .orders rfl short shortens

end Walk

namespace Plan

variable {u : Units} {d : Direction} {venue venue' : List Venue.Level}
  {chain chain' : List Chain.Order} {b : Decimal} {plan : Plan}

/-- A plan cut down to a base is the plan sized with the side of base cut to that depth, where
neither walk rounds: both exist, the claims are the same, and the cost on the chain is that of the
other plan in whole units. -/
theorem size_resize (sized : Plan.size u d venue chain = .ok plan)
    (exact : Walk.NeverRounds u (Walk.start d venue chain).budget (Walk.start d venue chain))
    (positive : zero < b) (le : b ≤ plan.base)
    (cut : d.CutTo b.value venue venue' chain chain')
    (exact' : Walk.NeverRounds u (Walk.start d venue' chain').budget (Walk.start d venue' chain'))
    (quote : Decimal) :
    ∃ part r, Plan.size u d venue' chain' = .ok part ∧ plan.resize b quote = .ok r ∧
      r.claims = part.claims ∧ r.chainQuote = part.chainQuote.trunc := by
  rw [lt_iff_value, value_zero] at positive
  have shortened := Walk.shortened_start positive cut
  obtain ⟨part, sized', cutAt⟩ := shortened.run exact exact' ⟨consistent_empty d, nofun⟩
    (Walk.pending_start_le d venue' chain') sized (le_iff_value.mp le)
  obtain ⟨r, resized, claims, chainQuote⟩ :=
    cutAt.resize (size_consistent sized) positive.le quote
  exact ⟨part, r, sized', resized, claims, chainQuote⟩

/-- The base is cut within the third level, just where the first order is filled: the order behind
it is reached at the cut and not before, and neither plan claims it. -/
theorem size_resize_of_boundary :
    let venue : List Venue.Level :=
      [⟨.ofWord 150 0, .ofWord 30 0⟩, ⟨.ofWord 160 0, .zero⟩, ⟨.ofWord 170 0, .ofWord 20 0⟩]
    let venue' : List Venue.Level :=
      [⟨.ofWord 150 0, .ofWord 30 0⟩, ⟨.ofWord 160 0, .zero⟩, ⟨.ofWord 170 0, .ofWord 10 0⟩]
    let chain : List Chain.Order :=
      [.fresh 1000000 7 "bid" "maker" (.ofWord 80 0), .fresh 800000 9 "bid" "maker" (.ofWord 18 0)]
    let b : Decimal := .ofWord 40 0
    Direction.chainBid.CutTo b.value venue venue' chain chain ∧
      Walk.NeverRounds ⟨8, 6⟩ (Walk.start .chainBid venue chain).budget
        (Walk.start .chainBid venue chain) ∧
      Walk.NeverRounds ⟨8, 6⟩ (Walk.start .chainBid venue' chain).budget
        (Walk.start .chainBid venue' chain) ∧
      ∃ plan part r, Plan.size ⟨8, 6⟩ .chainBid venue chain = .ok plan ∧ zero < b ∧ b ≤ plan.base ∧
        plan.claims = [⟨1000000, 7⟩, ⟨800000, 9⟩] ∧
        Plan.size ⟨8, 6⟩ .chainBid venue' chain = .ok part ∧ plan.resize b zero = .ok r ∧
        r.claims = part.claims ∧ r.chainQuote = part.chainQuote.trunc ∧
        part.claims = [⟨1000000, 7⟩] := by
  intro venue venue' chain b
  have b_value : b.value = 40 := value_ofUInt64 40
  have thirty : (ofWord 30 0).value = 30 := value_ofUInt64 30
  have twenty : (ofWord 20 0).value = 20 := value_ofUInt64 20
  have ten : (ofWord 10 0).value = 10 := value_ofUInt64 10
  have cut : Direction.chainBid.CutTo b.value venue venue' chain chain := by
    refine ⟨.keep ?_ (.keep ?_ (.last (q := .ofWord 10 0) ?_ ?_)), rfl⟩
    · change (ofWord 30 0).value < b.value
      norm_num [thirty, b_value]
    · change zero.value < b.value - max 0 (ofWord 30 0).value
      norm_num [thirty, b_value]
    · change b.value - max 0 (ofWord 30 0).value - max 0 zero.value ≤ (ofWord 20 0).value
      norm_num [thirty, twenty, b_value]
    · change (ofWord 10 0).value = b.value - max 0 (ofWord 30 0).value - max 0 zero.value
      norm_num [thirty, ten, b_value]
  have exact : Walk.NeverRounds ⟨8, 6⟩ (Walk.start .chainBid venue chain).budget
      (Walk.start .chainBid venue chain) := by decide +kernel
  have exact' : Walk.NeverRounds ⟨8, 6⟩ (Walk.start .chainBid venue' chain).budget
      (Walk.start .chainBid venue' chain) := by decide +kernel
  obtain ⟨plan, sized, le, both⟩ := exists_eq_ok (x := Plan.size ⟨8, 6⟩ .chainBid venue chain)
    (P := fun plan => b ≤ plan.base ∧ plan.claims = [⟨1000000, 7⟩, ⟨800000, 9⟩])
    (by decide +kernel)
  obtain ⟨part, r, sized', resized, claims, chainQuote⟩ :=
    size_resize sized exact (by decide) le cut exact' zero
  obtain ⟨_, computed, one⟩ := exists_eq_ok (x := Plan.size ⟨8, 6⟩ .chainBid venue' chain)
    (P := fun plan => plan.claims = [⟨1000000, 7⟩]) (by decide +kernel)
  obtain rfl := Except.ok.inj (computed.symm.trans sized')
  exact ⟨cut, exact, exact', plan, _, r, sized, by decide, le, both, sized', resized, claims,
    chainQuote, one⟩

end Plan

end CrossBook.Trade
