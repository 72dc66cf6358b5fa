import CrossBook.Proofs.Trade.Nearness
import CrossBook.Proofs.Trade.Volume
import Mathlib.Data.List.Forall2

/-!
# Deeper books

Where a walk stands in a book, it has matched all entries before that and a part of the entry there,
but for what rounding has lost so far. Two walks through books with the same prices are compared at
the places they end at: the deeper books are left where an entry of theirs no longer crosses, and
that is not before the place where the other plan matched its last.

## Main definitions

* `Trade.depthBefore` — the depth of the entries before a place
* `Trade.StandsIn` — where a walk stands in one of the books
* `Trade.Walk.StandsAt` — where a walk stands
* `Trade.LevelGrows`, `Trade.OrderGrows` — entries that hold as much or more

## Main results

* `Trade.Walk.StandsAt.step` — every step leads from one place to another
* `Trade.Walk.StandsAt.base_le` — the walk through deeper books has matched as much or more
* `Trade.Plan.size_grows` — deeper books never shrink a plan, but for rounding
-/

namespace CrossBook.Trade

open Decimal

/-! ### Places in a book -/

section Places

variable {α : Type} {width : α → ℚ} {items items' rest : List α} {a : α} {i j : ℕ}

/-- The depth of the entries before a place. -/
def depthBefore (width : α → ℚ) (items : List α) (i : ℕ) : ℚ := ((items.take i).map width).sum

theorem depthBefore_zero (width : α → ℚ) (items : List α) : depthBefore width items 0 = 0 := by
  simp [depthBefore]

theorem depthBefore_succ (h : items.drop i = a :: rest) :
    depthBefore width items (i + 1) = depthBefore width items i + width a := by
  have here : items[i]? = some a := by
    rw [← List.head?_drop, h, List.head?_cons]
  rw [depthBefore, List.take_add_one, here]
  simp [depthBefore]

theorem depthBefore_mono (nonneg : ∀ a, 0 ≤ width a) (h : i ≤ j) :
    depthBefore width items i ≤ depthBefore width items j := by
  obtain ⟨k, rfl⟩ := Nat.exists_eq_add_of_le h
  rw [depthBefore, depthBefore, List.take_add, List.map_append, List.sum_append]
  refine le_add_of_nonneg_right (List.sum_nonneg fun x among => ?_)
  obtain ⟨a, -, rfl⟩ := List.mem_map.mp among
  exact nonneg a

/-- From a place on, an entry that comes no earlier follows or is the first. -/
theorem drop_eq_cons {b : α} (here : items[i]? = some a) (there : items[j]? = some b)
    (le : i ≤ j) : items.drop i = a :: items.drop (i + 1) ∧ b ∈ a :: items.drop (i + 1) := by
  obtain ⟨inside, rfl⟩ := List.getElem?_eq_some_iff.mp here
  rw [← List.drop_eq_getElem_cons inside]
  refine ⟨rfl, List.mem_of_getElem? (i := j - i) ?_⟩
  rwa [List.getElem?_drop, Nat.add_sub_cancel' le]

/-- Entries that are no narrower reach no less deep. -/
theorem depthBefore_le {wider : α → α → Prop} (grow : List.Forall₂ wider items items')
    (le : ∀ {a b}, wider a b → width a ≤ width b) (i : ℕ) :
    depthBefore width items i ≤ depthBefore width items' i := by
  induction grow generalizing i with
  | nil => exact le_refl _
  | cons first _ ih =>
    cases i with
    | zero => exact le_refl _
    | succ i =>
      have := ih i
      unfold depthBefore at this ⊢
      simp only [List.take_succ_cons, List.map_cons, List.sum_cons]
      exact add_le_add (le first) this

end Places

/-! ### Where a walk stands -/

section Stands

variable {α : Type} {width : ℚ → α → ℚ} {full : α → ℚ} {items rest : List α} {a : α}
  {left left' base base' error ε : ℚ} {i : ℕ}

/-- What is left of a book begins at a place, with so much left of the first entry. The base that is
matched is the depth of what is not left, but for an error. -/
structure StandsIn (width : ℚ → α → ℚ) (full : α → ℚ) (items rest : List α)
    (left base error : ℚ) (i : ℕ) : Prop where
  rest_eq : rest = items.drop i
  before_le : depthBefore (fun a => width (full a) a) items i ≤ base + error
  first : ∀ a ∈ rest.head?,
    |base + width left a - depthBefore (fun a => width (full a) a) items (i + 1)| ≤ error

theorem standsIn_start (h : ∀ a ∈ items.head?, left = full a) :
    StandsIn width full items items left 0 0 0 := by
  refine ⟨rfl, by rw [depthBefore_zero, add_zero], fun a first => ?_⟩
  obtain ⟨rest, rfl⟩ := List.head?_eq_some_iff.mp first
  rw [depthBefore_succ rfl, depthBefore_zero, h a first, sub_self, abs_zero]

/-- An entry that is exhausted is passed. -/
theorem StandsIn.pass (h : StandsIn width full items (a :: rest) left base error i)
    (exhausted : width left a = 0) (next : ∀ b ∈ rest.head?, left' = full b) :
    StandsIn width full items rest left' base error (i + 1) := by
  have rest_eq : rest = items.drop (i + 1) := by
    rw [← List.tail_drop, ← h.rest_eq, List.tail_cons]
  have passed := abs_le.mp (h.first a rfl)
  rw [exhausted, add_zero] at passed
  refine ⟨rest_eq, by linarith, fun b first => ?_⟩
  obtain ⟨later, rfl⟩ := List.head?_eq_some_iff.mp first
  rw [depthBefore_succ rest_eq.symm, next b first, abs_le]
  exact ⟨by linarith, by linarith⟩

/-- A match moves base from an entry to the sum. -/
theorem StandsIn.match (h : StandsIn width full items (a :: rest) left base error i)
    (grows : base ≤ base') (near : |base' + width left' a - (base + width left a)| ≤ ε) :
    StandsIn width full items (a :: rest) left' base' (error + ε) i := by
  have nonneg := (abs_nonneg _).trans near
  refine ⟨h.rest_eq, by linarith [h.before_le], fun b first => ?_⟩
  obtain rfl : a = b := by simpa using first
  -- the two errors add up
  have before := h.first a rfl
  rw [abs_le] at before near ⊢
  exact ⟨by linarith, by linarith⟩

/-- No more is matched than the entries hold up to the first that is left. -/
theorem StandsIn.base_le (h : StandsIn width full items (a :: rest) left base error i)
    (nonneg : 0 ≤ width left a) :
    base ≤ depthBefore (fun a => width (full a) a) items (i + 1) + error := by
  have := (abs_le.mp (h.first a rfl)).2
  linarith

/-- Past a place, as much is matched as the entries held up to there in less deep a book. -/
theorem StandsIn.depth_le {wider : α → α → Prop} {items' : List α} {j : ℕ}
    (h : StandsIn width full items' rest left base error i) (nonneg : ∀ x a, 0 ≤ width x a)
    (grow : List.Forall₂ wider items items')
    (le : ∀ {a b}, wider a b → width (full a) a ≤ width (full b) b) (past : j < i) :
    depthBefore (fun a => width (full a) a) items (j + 1) ≤ base + error :=
  calc depthBefore (fun a => width (full a) a) items (j + 1)
      ≤ depthBefore (fun a => width (full a) a) items' (j + 1) := depthBefore_le grow le _
    _ ≤ depthBefore (fun a => width (full a) a) items' i :=
      depthBefore_mono (fun a => nonneg _ a) past
    _ ≤ base + error := h.before_le

end Stands

/-! ### Crossing places -/

section Crossing

variable {u : Units} {d : Direction} {venue : List Venue.Level} {chain : List Chain.Order}
  {i i' j j' : ℕ}

/-- The level and the order at two places cross. -/
def MeetAt (u : Units) (d : Direction) (venue : List Venue.Level) (chain : List Chain.Order)
    (i j : ℕ) : Prop :=
  ∃ l o human, venue[i]? = some l ∧ chain[j]? = some o ∧ RoundsTo (humanPrice u o) human ∧
    d.Crosses human l.price

/-- Entries before those that cross do so as well. -/
theorem MeetAt.crosses (h : MeetAt u d venue chain i j) (venueSorted : d.VenueSorted venue)
    (chainSorted : d.ChainSorted chain) (ile : i' ≤ i) (jle : j' ≤ j) {l : Venue.Level}
    {o : Chain.Order} {human : Decimal} (level : venue[i']? = some l) (order : chain[j']? = some o)
    (rounds : RoundsTo (humanPrice u o) human) : d.Crosses human l.price := by
  obtain ⟨l₀, o₀, human₀, level₀, order₀, rounds₀, crosses⟩ := h
  -- behind what comes first at the earlier places are the entries that cross
  obtain ⟨venue_eq, levels⟩ := drop_eq_cons level level₀ ile
  obtain ⟨chain_eq, orders⟩ := drop_eq_cons order order₀ jle
  have venueLater : d.VenueSorted (l :: venue.drop (i' + 1)) := by
    rw [← venue_eq]
    cases d <;> exact List.Pairwise.drop venueSorted
  have chainLater : d.ChainSorted (o :: chain.drop (j' + 1)) := by
    rw [← chain_eq]
    cases d <;> exact List.Pairwise.drop chainSorted
  exact Direction.crosses_iff_value.mpr
    (((chainLater.crosses u orders).rounded rounds rounds₀).trans
      ((Direction.crosses_iff_value.mp crosses).trans (venueLater.crosses levels)))

end Crossing

/-! ### Where a walk stands in both books -/

namespace Walk

variable {u : Units} {d : Direction} {venue : List Venue.Level} {chain : List Chain.Order}
  {w next : Walk} {ε : ℚ} {i j : ℕ}

/-- A walk stands at a place of each book. Each of its matches has lost so much at most. The last of
them, if there was any, was where the books cross. -/
structure StandsAt (u : Units) (d : Direction) (venue : List Venue.Level)
    (chain : List Chain.Order) (ε : ℚ) (w : Walk) (i j : ℕ) : Prop where
  direction_eq : w.plan.direction = d
  base_nonneg : 0 ≤ w.plan.base.value
  levels : StandsIn (levelWidth u d) (fun l => l.size.value) venue w.venue w.venueLeft.value
    w.plan.base.value (w.plan.steps.length * ε) i
  orders : StandsIn (orderDepth d) (fun o => o.quantity.value) chain w.chain w.chainLeft.value
    w.plan.base.value (w.plan.steps.length * ε) j
  matchedLast : w.plan.base.value = 0 ∨ ∃ i j, MeetAt u d venue chain i j ∧
    w.plan.base.value ≤ depthBefore (fun l => levelWidth u d l.size.value l) venue (i + 1) +
      w.plan.steps.length * ε ∧
    w.plan.base.value ≤ depthBefore (fun o => orderDepth d o.quantity.value o) chain (j + 1) +
      w.plan.steps.length * ε

theorem firstSize_eq {venue : List Venue.Level} :
    ∀ l ∈ venue.head?, (firstSize venue).value = l.size.value := by
  intro l first
  obtain ⟨rest, rfl⟩ := List.head?_eq_some_iff.mp first
  rfl

theorem firstQuantity_eq {chain : List Chain.Order} :
    ∀ o ∈ chain.head?, (firstQuantity chain).value = o.quantity.value := by
  intro o first
  obtain ⟨rest, rfl⟩ := List.head?_eq_some_iff.mp first
  rfl

theorem standsAt_start (u : Units) (d : Direction) (venue : List Venue.Level)
    (chain : List Chain.Order) (ε : ℚ) :
    (start d venue chain).StandsAt u d venue chain ε 0 0 := by
  have nothing : (start d venue chain).plan.base.value = 0 := value_zero
  have lossless : ((start d venue chain).plan.steps.length : ℚ) * ε = 0 :=
    (congrArg (· * ε) Nat.cast_zero).trans (zero_mul ε)
  refine ⟨rfl, nothing.ge, ?_, ?_, .inl nothing⟩
  · rw [nothing, lossless]
    exact standsIn_start firstSize_eq
  · rw [nothing, lossless]
    exact standsIn_start firstQuantity_eq

theorem Front.meetAt (f : Front u w) (crossing : f.Crossing) (direction : w.plan.direction = d)
    (level : w.venue = venue.drop i) (order : w.chain = chain.drop j) :
    MeetAt u d venue chain i j := by
  refine ⟨f.level, f.order, f.human, ?_, ?_, ?_, direction ▸ crossing⟩
  · rw [← List.head?_drop, ← level, f.venue_eq, List.head?_cons]
  · rw [← List.head?_drop, ← order, f.chain_eq, List.head?_cons]
  · have rounds := Units.roundsTo_of_toHumanPrice f.human_eq
    rwa [Tick.value_of_price f.price_eq] at rounds

/-- Every step leads from one place to another. -/
theorem StandsAt.step (h : w.StandsAt u d venue chain ε i j) (step : Step u w (.more next))
    (near : ∀ m : Match u w next, m.Near ε) :
    ∃ i j, next.StandsAt u d venue chain ε i j := by
  obtain ⟨direction, base_nonneg, levels, orders, matchedLast⟩ := h
  cases step with
  | passLevel f crossing exhausted =>
    rw [f.venue_eq] at levels
    exact ⟨i + 1, j, direction, base_nonneg,
      levels.pass (depth_of_nonpos exhausted _ _) firstSize_eq, orders, matchedLast⟩
  | passOrder f crossing exhausted =>
    rw [f.chain_eq] at orders
    exact ⟨i, j + 1, direction, base_nonneg, levels,
      orders.pass (depth_of_nonpos exhausted _ _) firstQuantity_eq, matchedLast⟩
  | matching m =>
    have meets := m.toFront.meetAt m.crossing direction levels.rest_eq orders.rest_eq
    have base_le := m.base_le
    have error : (next.plan.steps.length : ℚ) * ε = w.plan.steps.length * ε + ε := by
      rw [length_steps_of_match m, Nat.cast_succ, add_mul, one_mul]
    obtain ⟨level_near, order_near⟩ := near m
    -- the match takes from the first of both books, and the error of one match is added
    rw [direction] at level_near order_near
    rw [m.venue_eq] at levels
    rw [m.chain_eq] at orders
    have levels := levels.match base_le level_near
    have orders := orders.match base_le order_near
    have venue_le := levels.base_le (depth_nonneg _ _ _)
    have chain_le := orders.base_le (depth_nonneg _ _ _)
    rw [← error] at levels orders venue_le chain_le
    rw [← m.venue_eq, ← m.venue_same] at levels
    rw [← m.chain_eq, ← m.chain_same] at orders
    exact ⟨i, j, (direction_of_step (.matching m)).trans direction, base_nonneg.trans base_le,
      levels, orders, .inr ⟨i, j, meets, venue_le, chain_le⟩⟩

theorem base_le_of_step (h : Step u w (.more next)) :
    w.plan.base.value ≤ next.plan.base.value := by
  cases h with
  | passLevel f crossing exhausted => exact le_refl _
  | passOrder f crossing exhausted => exact le_refl _
  | matching m => exact m.base_le

/-- A sized plan is that of a walk that ends at some place, if its matches lose no more than an
error as long as the base is not above a bound. -/
theorem exists_standsAt {I : Walk → Prop} {plan : Plan} {bound : ℚ}
    (sized : Plan.size u d venue chain = .ok plan) (within : plan.base.value ≤ bound)
    (initial : I (start d venue chain))
    (kept : ∀ {w next}, I w → w.step u = .ok (.more next) → I next)
    (near : ∀ {w next} (m : Match u w next), I w → 0 ≤ w.plan.base.value →
      next.plan.base.value ≤ bound → m.Near ε) :
    ∃ last i j, last.StandsAt u d venue chain ε i j ∧ Step u last (.finished plan) := by
  -- a base that has passed the bound does not come back
  obtain ⟨last, ⟨-, stands⟩, ends⟩ := run_ends_of_step
    (P := fun w => I w ∧ (w.plan.base.value ≤ bound → ∃ i j, w.StandsAt u d venue chain ε i j))
    (fun {w next} holds step => ⟨kept holds.1 step, fun le => by
      have step := step_cases step
      obtain ⟨i, j, stands⟩ := holds.2 ((base_le_of_step step).trans le)
      exact stands.step step fun m => near m holds.1 stands.base_nonneg le⟩)
    (pending_start_le d venue chain) (Nat.succ_pos _)
    ⟨initial, fun _ => ⟨0, 0, standsAt_start u d venue chain ε⟩⟩ sized
  obtain rfl := plan_of_finished ends
  obtain ⟨i, j, stands⟩ := stands within
  exact ⟨last, i, j, stands, ends⟩

end Walk

/-! ### Books that grow -/

/-- A level that holds as much as another of its price, or more. -/
structure LevelGrows (l l' : Venue.Level) : Prop where
  price_eq : l'.price = l.price
  size_le : l.size ≤ l'.size

/-- An order that holds as much as another of its tick, or more. -/
structure OrderGrows (o o' : Chain.Order) : Prop where
  tick_eq : o'.tick = o.tick
  quantity_le : o.quantity ≤ o'.quantity

theorem LevelGrows.width_le {l l' : Venue.Level} (h : LevelGrows l l') (u : Units) (d : Direction) :
    levelWidth u d l.size.value l ≤ levelWidth u d l'.size.value l' := by
  have price : computedPrice u l' = computedPrice u l := by
    rw [computedPrice, computedPrice, h.price_eq]
  rw [levelWidth, levelWidth, price]
  exact depth_mono (le_iff_value.mp h.size_le)

theorem OrderGrows.width_le {o o' : Chain.Order} (h : OrderGrows o o') (d : Direction) :
    orderDepth d o.quantity.value o ≤ orderDepth d o'.quantity.value o' := by
  rw [orderDepth, orderDepth, h.tick_eq]
  exact depth_mono (le_iff_value.mp h.quantity_le)

theorem exists_of_forall₂ {α : Type} {R : α → α → Prop} {l l' : List α} (h : List.Forall₂ R l l')
    {i : ℕ} {b : α} (there : l'[i]? = some b) : ∃ a, l[i]? = some a ∧ R a b := by
  induction h generalizing i with
  | nil => cases there
  | cons first _ ih =>
    cases i with
    | zero =>
      obtain rfl := Option.some.inj there
      exact ⟨_, rfl, first⟩
    | succ i => exact ih there

theorem forall_of_forall₂ {α : Type} {R : α → α → Prop} {P Q : α → Prop} {l l' : List α}
    (h : List.Forall₂ R l l') (back : ∀ {a b}, R a b → Q b → P a) (all : ∀ b ∈ l', Q b) :
    ∀ a ∈ l, P a := by
  induction h with
  | nil => exact fun a among => absurd among List.not_mem_nil
  | cons first _ ih =>
    obtain ⟨here, later⟩ := List.forall_mem_cons.mp all
    exact List.forall_mem_cons.mpr ⟨back first here, ih later⟩

namespace Walk

variable {u : Units} {d : Direction} {venue venue' : List Venue.Level}
  {chain chain' : List Chain.Order} {last last' : Walk} {plan' : Plan} {ε : ℚ} {i j i' j' : ℕ}

/-- The walk through deeper books has matched as much at its end, but for what both have lost. -/
theorem StandsAt.base_le (h : last.StandsAt u d venue chain ε i j)
    (h' : last'.StandsAt u d venue' chain' ε i' j') (ends : Step u last' (.finished plan'))
    (venueSorted : d.VenueSorted venue) (chainSorted : d.ChainSorted chain)
    (levels : List.Forall₂ LevelGrows venue venue') (orders : List.Forall₂ OrderGrows chain chain')
    (nonneg : 0 ≤ ε) : last.plan.base.value ≤ last'.plan.base.value +
      (last.plan.steps.length + last'.plan.steps.length) * ε := by
  rw [add_mul]
  have lost : 0 ≤ (last.plan.steps.length : ℚ) * ε := by positivity
  have lost' : 0 ≤ (last'.plan.steps.length : ℚ) * ε := by positivity
  rcases h.matchedLast with nothing | ⟨i₀, j₀, meets, venue_le, chain_le⟩
  · linarith [h'.base_nonneg]
  by_contra less
  rw [not_le] at less
  -- a walk that had passed either entry would have matched as much
  have ile : i' ≤ i₀ := by
    by_contra past
    have passed := h'.levels.depth_le (fun _ _ => depth_nonneg _ _ _) levels
      (fun grows => grows.width_le u d) (not_le.mp past)
    linarith
  have jle : j' ≤ j₀ := by
    by_contra past
    have passed := h'.orders.depth_le (fun _ _ => depth_nonneg _ _ _) orders
      (fun grows => grows.width_le d) (not_le.mp past)
    linarith
  -- so it ended at entries that are not behind those that crossed, and could not have ended there
  obtain ⟨l₀, o₀, -, level₀, order₀, -⟩ := id meets
  cases ends with
  | ranOut empty =>
    rcases empty with empty | empty
    · rw [h'.levels.rest_eq, List.drop_eq_nil_iff, ← levels.length_eq] at empty
      have := (List.getElem?_eq_some_iff.mp level₀).1
      omega
    · rw [h'.orders.rest_eq, List.drop_eq_nil_iff, ← orders.length_eq] at empty
      have := (List.getElem?_eq_some_iff.mp order₀).1
      omega
  | apart f apart =>
    have level : venue'[i']? = some f.level := by
      rw [← List.head?_drop, ← h'.levels.rest_eq, f.venue_eq, List.head?_cons]
    have order : chain'[j']? = some f.order := by
      rw [← List.head?_drop, ← h'.orders.rest_eq, f.chain_eq, List.head?_cons]
    obtain ⟨l, level, levelGrows⟩ := exists_of_forall₂ levels level
    obtain ⟨o, order, orderGrows⟩ := exists_of_forall₂ orders order
    have rounds := Units.roundsTo_of_toHumanPrice f.human_eq
    rw [Tick.value_of_price f.price_eq, orderGrows.tick_eq] at rounds
    refine apart ?_
    rw [Front.Crossing, h'.direction_eq, levelGrows.price_eq]
    exact meets.crosses venueSorted chainSorted ile jle level order rounds

end Walk

namespace Plan

variable {u : Units} {d : Direction} {venue venue' : List Venue.Level}
  {chain chain' : List Chain.Order} {plan plan' : Plan}

/-- A walk that never rounds ends at a place and has lost nothing. -/
theorem exists_standsAt_of_neverRounds (sized : size u d venue chain = .ok plan)
    (exact : Walk.NeverRounds u (Walk.start d venue chain).budget (Walk.start d venue chain)) :
    ∃ last i j, last.StandsAt u d venue chain 0 i j ∧ Walk.Step u last (.finished plan) := by
  refine Walk.exists_standsAt
    -- some fuel that is enough for the rest of the walk
    (I := fun w => ∃ fuel, w.pending ≤ fuel ∧ 0 < fuel ∧ Walk.NeverRounds u fuel w)
    sized (le_refl _) ⟨_, Walk.pending_start_le d venue chain, Nat.succ_pos _, exact⟩ ?_ ?_
  · rintro w next ⟨_ | fuel, enough, positive, exact⟩ step
    · exact absurd positive (lt_irrefl 0)
    · have closer := Walk.pending_lt (Walk.step_cases step)
      have further := Walk.pending_pos (Walk.step_cases step)
      exact ⟨fuel, by omega, by omega, exact.later step⟩
  · rintro w next m ⟨_ | fuel, -, positive, exact⟩ - -
    · exact absurd positive (lt_irrefl 0)
    · exact m.near_of_exact exact.1

/-- A walk through limited books ends at a place and has lost no more than its slack. -/
theorem exists_standsAt_of_limitedBy {amount base : ℚ} {least : Decimal}
    (sized : size u d venue chain = .ok plan) (within : plan.base.value ≤ base)
    (amount_nonneg : 0 ≤ amount) (least_pos : 0 < least.value)
    (limited : d.LimitedBy u amount least venue chain) :
    ∃ last i j, last.StandsAt u d venue chain (matchSlack base amount least.value) i j ∧
      Walk.Step u last (.finished plan) :=
  Walk.exists_standsAt (I := Walk.Limited u amount least) sized within
    (Walk.limited_start amount_nonneg limited)
    (fun limited step => limited.step amount_nonneg (Walk.step_cases step))
    fun m limited base_nonneg base_le => limited.near least_pos m base_nonneg base_le

/-- Books that are less deep stay within limits. -/
theorem limitedBy_of_grows {amount : ℚ} {least : Decimal}
    (levels : List.Forall₂ LevelGrows venue venue') (orders : List.Forall₂ OrderGrows chain chain')
    (h : d.LimitedBy u amount least venue' chain') : d.LimitedBy u amount least venue chain := by
  obtain ⟨sizes, quantities, bids⟩ := h
  refine ⟨forall_of_forall₂ levels (fun grows le => ?_) sizes,
    forall_of_forall₂ orders (fun grows le => ?_) quantities, ?_⟩
  · exact (le_iff_value.mp grows.size_le).trans le
  · exact (le_iff_value.mp grows.quantity_le).trans le
  · cases d with
    | chainBid => exact forall_of_forall₂ orders (fun grows le => grows.tick_eq ▸ le) bids
    | venueBid =>
      refine forall_of_forall₂ levels (fun grows le => ?_) bids
      rwa [levelPrice, grows.price_eq] at le

/-- More depth never shrinks a plan: where no level and no order holds less than before, a plan that
is sized without rounding has no less base. With rounding it has less by no more than what the
matches of both walks may have lost. -/
theorem size_grows (venueSorted : d.VenueSorted venue) (chainSorted : d.ChainSorted chain)
    (levels : List.Forall₂ LevelGrows venue venue') (orders : List.Forall₂ OrderGrows chain chain')
    (sized : size u d venue chain = .ok plan) (sized' : size u d venue' chain' = .ok plan') :
    (Walk.NeverRounds u (Walk.start d venue chain).budget (Walk.start d venue chain) →
      Walk.NeverRounds u (Walk.start d venue' chain').budget (Walk.start d venue' chain') →
      plan.base ≤ plan'.base) ∧
    ∀ (amount : ℚ) (least : Decimal), 0 ≤ amount → 0 < least.value →
      d.LimitedBy u amount least venue' chain' →
      plan.base.value ≤ plan'.base.value + (plan.steps.length + plan'.steps.length) *
        matchSlack plan.base.value amount least.value := by
  constructor
  · intro exact exact'
    obtain ⟨last, i, j, stands, ends⟩ := exists_standsAt_of_neverRounds sized exact
    obtain ⟨last', i', j', stands', ends'⟩ := exists_standsAt_of_neverRounds sized' exact'
    obtain rfl := Walk.plan_of_finished ends
    obtain rfl := Walk.plan_of_finished ends'
    have := stands.base_le stands' ends' venueSorted chainSorted levels orders (le_refl 0)
    rw [mul_zero, add_zero] at this
    exact le_iff_value.mpr this
  · intro amount least amount_nonneg least_pos limited
    have base_nonneg := (size_consistent sized).base_nonneg
    have nonneg := matchSlack_nonneg base_nonneg amount_nonneg least_pos
    rcases le_or_gt plan.base.value plan'.base.value with grown | shrunk
    · have : 0 ≤ ((plan.steps.length : ℚ) + plan'.steps.length) *
          matchSlack plan.base.value amount least.value := by positivity
      linarith
    · -- both walks stay below the base of the plan that is compared
      obtain ⟨last, i, j, stands, ends⟩ := exists_standsAt_of_limitedBy sized (le_refl _)
        amount_nonneg least_pos (limitedBy_of_grows levels orders limited)
      obtain ⟨last', i', j', stands', ends'⟩ := exists_standsAt_of_limitedBy sized' shrunk.le
        amount_nonneg least_pos limited
      obtain rfl := Walk.plan_of_finished ends
      obtain rfl := Walk.plan_of_finished ends'
      exact stands.base_le stands' ends' venueSorted chainSorted levels orders nonneg

/-- Where the first of two levels grows, the order is filled that was not filled before. -/
theorem size_grows_of_first_level :
    let venue : List Venue.Level := [⟨.ofWord 15 1, .ofWord 4 0⟩, ⟨.ofWord 16 1, .ofWord 3 0⟩]
    let deeper : List Venue.Level := [⟨.ofWord 15 1, .ofWord 9 0⟩, ⟨.ofWord 16 1, .ofWord 3 0⟩]
    let chain : List Chain.Order := [.fresh 1000000 1 "bid" "maker" (.ofWord 20 0)]
    Direction.chainBid.VenueSorted venue ∧ Direction.chainBid.ChainSorted chain ∧
      List.Forall₂ LevelGrows venue deeper ∧ List.Forall₂ OrderGrows chain chain ∧
      Walk.NeverRounds ⟨6, 6⟩ (Walk.start .chainBid venue chain).budget
        (Walk.start .chainBid venue chain) ∧
      Walk.NeverRounds ⟨6, 6⟩ (Walk.start .chainBid deeper chain).budget
        (Walk.start .chainBid deeper chain) ∧
      ∃ plan plan', Plan.size ⟨6, 6⟩ .chainBid venue chain = .ok plan ∧
        Plan.size ⟨6, 6⟩ .chainBid deeper chain = .ok plan' ∧
        plan.base.SameValue (.ofWord 7 0) ∧ plan'.base.SameValue (.ofWord 10 0) ∧
        plan.base ≤ plan'.base := by
  intro venue deeper chain
  have venueSorted : Direction.chainBid.VenueSorted venue := by
    show List.Pairwise _ _
    decide
  have chainSorted : Direction.chainBid.ChainSorted chain := List.pairwise_singleton _ _
  have levels : List.Forall₂ LevelGrows venue deeper :=
    .cons ⟨rfl, by decide⟩ (.cons ⟨rfl, by decide⟩ .nil)
  have orders : List.Forall₂ OrderGrows chain chain := .cons ⟨rfl, by decide⟩ .nil
  have exact : Walk.NeverRounds ⟨6, 6⟩ (Walk.start .chainBid venue chain).budget
      (Walk.start .chainBid venue chain) := by decide +kernel
  have exact' : Walk.NeverRounds ⟨6, 6⟩ (Walk.start .chainBid deeper chain).budget
      (Walk.start .chainBid deeper chain) := by decide +kernel
  obtain ⟨plan, sized, base⟩ := exists_eq_ok (x := Plan.size ⟨6, 6⟩ .chainBid venue chain)
    (P := fun plan => plan.base.SameValue (.ofWord 7 0)) (by decide +kernel)
  obtain ⟨plan', sized', base'⟩ := exists_eq_ok (x := Plan.size ⟨6, 6⟩ .chainBid deeper chain)
    (P := fun plan => plan.base.SameValue (.ofWord 10 0)) (by decide +kernel)
  exact ⟨venueSorted, chainSorted, levels, orders, exact, exact', plan, plan', sized, sized', base,
    base', (size_grows venueSorted chainSorted levels orders sized sized').1 exact exact'⟩

/-- With three more units in the first level, the order is filled in two parts, of which the second
has been rounded off: the plan has a little less than fourteen units of base. -/
theorem size_shrinks :
    let rest : List Venue.Level := [⟨.ofWord 11 0, .ofWord 4 0⟩, ⟨.ofWord 2 0, .ofWord 34 0⟩]
    let chain : List Chain.Order := [.fresh 1000000 1 "ask" "maker" (.ofWord 14 0)]
    Direction.venueBid.VenueSorted (⟨.ofWord 11 0, .ofWord 21 0⟩ :: rest) ∧
      Direction.venueBid.ChainSorted chain ∧
      ∃ plan plan',
        Plan.size ⟨0, 0⟩ .venueBid (⟨.ofWord 11 0, .ofWord 21 0⟩ :: rest) chain = .ok plan ∧
        Plan.size ⟨0, 0⟩ .venueBid (⟨.ofWord 11 0, .ofWord 24 0⟩ :: rest) chain = .ok plan' ∧
        plan.base.SameValue (.ofWord 14 0) ∧ ¬ plan.base ≤ plan'.base := by
  intro rest chain
  refine ⟨?_, List.pairwise_singleton _ _, ?_⟩
  · show List.Pairwise _ _
    decide
  · obtain ⟨plan, sized, base⟩ := exists_eq_ok
      (x := Plan.size ⟨0, 0⟩ .venueBid (⟨.ofWord 11 0, .ofWord 21 0⟩ :: rest) chain)
      (P := fun plan => plan.base.SameValue (.ofWord 14 0)) (by decide +kernel)
    obtain ⟨plan', sized', less⟩ := exists_eq_ok
      (x := Plan.size ⟨0, 0⟩ .venueBid (⟨.ofWord 11 0, .ofWord 24 0⟩ :: rest) chain)
      (P := fun plan => plan.base < .ofWord 14 0) (by decide +kernel)
    refine ⟨plan, plan', sized, sized', base, fun le => ?_⟩
    rw [le_iff_value, sameValue_iff_value.mp base] at le
    exact absurd (lt_iff_value.mp less) (not_lt.mpr le)

end Plan

end CrossBook.Trade
