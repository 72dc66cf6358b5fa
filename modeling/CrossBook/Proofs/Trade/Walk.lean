import CrossBook.Proofs.Tick
import CrossBook.Trade.Walk

/-!
# What a walk does

A walk ends where the prices of the first level and the first order no longer cross, or where a book
has run out. Any other step passes an exhausted level or order, or matches the first level with the
first order and exhausts one of them; so the steps that are allowed are enough.

## Main definitions

* `Trade.Direction.ExactlyCrosses` — the test for a crossing, on numbers
* `Trade.Walk.Front` — the first level and the first order, with their prices
* `Trade.Walk.Meeting` — a level and an order with something to match
* `Trade.Walk.Match` — all that a matching step computes
* `Trade.Walk.Step` — what a step can do
* `Trade.Plan.Consistent` — what the plans of walks have in common

## Main results

* `Trade.Walk.step_cases` — a step does nothing else
* `Trade.Walk.run_ends_of_step` — a walk ends with a step that ends it
* `Trade.Walk.run_keeps` — what every step keeps holds of the walk whose plan comes out
* `Trade.Walk.steps_add_unspent_le` — every match exhausts an entry
* `Trade.Plan.size_consistent` — sized plans are consistent
-/

namespace CrossBook.Trade

open Decimal

namespace Direction

variable {d : Direction} {x y x' y' : ℚ} {a b : Decimal}

/-- A number on the chain and a number at the venue cross, or meet. -/
def ExactlyCrosses (d : Direction) (chain venue : ℚ) : Prop :=
  match d with
  | chainBid => venue ≤ chain
  | venueBid => chain ≤ venue

theorem crosses_iff_value : d.Crosses a b ↔ d.ExactlyCrosses a.value b.value := by
  cases d <;> exact le_iff_value

theorem ExactlyCrosses.rounded (h : d.ExactlyCrosses x y) (ha : RoundsTo x a) (hb : RoundsTo y b) :
    d.ExactlyCrosses a.value b.value := by
  cases d with
  | chainBid => exact hb.mono ha h
  | venueBid => exact ha.mono hb h

theorem ExactlyCrosses.add (h : d.ExactlyCrosses x y) (h' : d.ExactlyCrosses x' y') :
    d.ExactlyCrosses (x + x') (y + y') := by
  cases d <;> exact add_le_add h h'

theorem ExactlyCrosses.mul_left (h : d.ExactlyCrosses x y) {z : ℚ} (nonneg : 0 ≤ z) :
    d.ExactlyCrosses (z * x) (z * y) := by
  cases d <;> exact mul_le_mul_of_nonneg_left h nonneg

theorem exactlyCrosses_mul_right_iff {z : ℚ} (positive : 0 < z) :
    d.ExactlyCrosses (x * z) (y * z) ↔ d.ExactlyCrosses x y := by
  cases d <;> exact mul_le_mul_iff_of_pos_right positive

end Direction

namespace Plan

/-- One match takes a plan to another, with the quote it is worth at the venue and on the chain. -/
structure Extends (p : Plan) (matched venuePrice chainPrice proceeds cost : Decimal) (q : Plan) :
    Prop where
  proceeds_eq : matched.mul? venuePrice = some proceeds
  quote_eq : p.quote.add? proceeds = some q.quote
  base_eq : p.base.add? matched = some q.base
  cost_eq : matched.mul? chainPrice = some cost
  chainQuote_eq : p.chainQuote.add? cost = some q.chainQuote
  direction_eq : q.direction = p.direction
  steps_eq : q.steps = p.steps ++ [⟨p.base, p.chainQuote, chainPrice⟩]
  touches_eq : q.touches = p.touches

theorem extends_of_extend {p q : Plan} {matched venuePrice chainPrice : Decimal}
    (h : p.extend matched venuePrice chainPrice = .ok q) :
    ∃ proceeds cost, p.Extends matched venuePrice chainPrice proceeds cost q := by
  obtain ⟨proceeds, product, h⟩ := bind_eq_ok.mp h
  obtain ⟨quote, quoteSum, h⟩ := bind_eq_ok.mp h
  obtain ⟨base, baseSum, h⟩ := bind_eq_ok.mp h
  obtain ⟨cost, chainProduct, h⟩ := bind_eq_ok.mp h
  obtain ⟨chainQuote, chainSum, h⟩ := bind_eq_ok.mp h
  obtain rfl := Except.ok.inj h
  exact ⟨proceeds, cost, orError_eq_ok.mp product, orAbort_eq_ok.mp quoteSum,
    orAbort_eq_ok.mp baseSum, orError_eq_ok.mp chainProduct, orAbort_eq_ok.mp chainSum,
    rfl, rfl, rfl⟩

theorem Extends.base_le {p q : Plan} {matched venuePrice chainPrice proceeds cost : Decimal}
    (h : p.Extends matched venuePrice chainPrice proceeds cost q) (nonneg : 0 ≤ matched.value) :
    p.base.value ≤ q.base.value :=
  (roundsTo_of_add? h.base_eq).ge (le_add_of_nonneg_right nonneg)

end Plan

namespace Walk

variable {u : Units} {w next : Walk} {plan : Plan}

/-! ### One step -/

/-- The plan once the first order is reached. -/
def reached (w : Walk) (o : Chain.Order) : Plan := if w.touched then w.plan else w.plan.touch o

/-- The first level and the first order of a walk, with the order's prices. -/
structure Front (u : Units) (w : Walk) where
  level : Venue.Level
  order : Chain.Order
  chainPrice : Decimal
  human : Decimal
  venue_eq : w.venue = level :: w.venue.tail
  chain_eq : w.chain = order :: w.chain.tail
  onSide : order.expectSide w.plan.direction.chainSide = .ok ()
  price_eq : Tick.price order.tick = .ok chainPrice
  human_eq : u.toHumanPrice chainPrice = .ok human

/-- The first level and the first order cross. -/
def Front.Crossing (f : Front u w) : Prop := w.plan.direction.Crosses f.human f.level.price

/-- A first level and a first order that cross and both hold something, with the base they hold. -/
structure Meeting (u : Units) (w : Walk) extends Front u w where
  crossing : toFront.Crossing
  venueLeft_pos : 0 < w.venueLeft.value
  chainLeft_pos : 0 < w.chainLeft.value
  venuePrice : Decimal
  venueBase : Decimal
  chainBase : Decimal
  venuePrice_eq : u.toChainPrice level.price = .ok venuePrice
  venueBase_eq : w.venueBase venuePrice = .ok venueBase
  chainBase_eq : w.chainBase chainPrice = .ok chainBase

/-- What a match leaves of the two amounts. The side that holds quote is left with nothing when all
of its base is matched. -/
def Leaves (w : Walk) (venuePrice chainPrice venueBase chainBase : Decimal) (next : Walk) : Prop :=
  let matched := venueBase.min chainBase
  match w.plan.direction with
  | .chainBid => w.venueLeft.minus matched = .ok next.venueLeft ∧
      quoteLeft w.chainLeft chainBase matched chainPrice = .ok next.chainLeft
  | .venueBid => w.chainLeft.minus matched = .ok next.chainLeft ∧
      quoteLeft w.venueLeft venueBase matched venuePrice = .ok next.venueLeft

/-- A step that matches the first level with the first order. -/
structure Match (u : Units) (w next : Walk) extends Front u w where
  crossing : toFront.Crossing
  venueLeft_pos : 0 < w.venueLeft.value
  chainLeft_pos : 0 < w.chainLeft.value
  venuePrice : Decimal
  venueBase : Decimal
  chainBase : Decimal
  proceeds : Decimal
  cost : Decimal
  venuePrice_eq : u.toChainPrice level.price = .ok venuePrice
  venueBase_eq : w.venueBase venuePrice = .ok venueBase
  chainBase_eq : w.chainBase chainPrice = .ok chainBase
  extended : (w.reached order).Extends (venueBase.min chainBase) venuePrice chainPrice proceeds cost
    next.plan
  leaves : w.Leaves venuePrice chainPrice venueBase chainBase next
  venue_same : next.venue = w.venue
  chain_same : next.chain = w.chain
  touched : next.touched = true

/-- The base a step matches. -/
def Match.matched (m : Match u w next) : Decimal := m.venueBase.min m.chainBase

/-- What a step of a walk can do. -/
inductive Step (u : Units) (w : Walk) : Progress → Prop where
  | ranOut (h : w.venue = [] ∨ w.chain = []) : Step u w (.finished w.plan)
  | apart (f : Front u w) (h : ¬ f.Crossing) : Step u w (.finished w.plan)
  | passLevel (f : Front u w) (h : f.Crossing) (exhausted : w.venueLeft.value ≤ 0) :
      Step u w (.more w.passLevel)
  | passOrder (f : Front u w) (h : f.Crossing) (exhausted : w.chainLeft.value ≤ 0) :
      Step u w (.more w.passOrder)
  | matching {next : Walk} (m : Match u w next) : Step u w (.more next)

theorem direction_reached (w : Walk) (o : Chain.Order) :
    (w.reached o).direction = w.plan.direction := by
  unfold reached Plan.touch
  split <;> rfl

/-- An order that is reached changes no amount. -/
theorem amounts_reached (w : Walk) (o : Chain.Order) :
    (w.reached o).quote = w.plan.quote ∧ (w.reached o).base = w.plan.base ∧
      (w.reached o).chainQuote = w.plan.chainQuote := by
  unfold reached
  split_ifs <;> exact ⟨rfl, rfl, rfl⟩

private theorem match_of_matchFirst {f : Front u w} {venuePrice : Decimal} (crossing : f.Crossing)
    (venueLeft_pos : 0 < w.venueLeft.value) (chainLeft_pos : 0 < w.chainLeft.value)
    (scaled : u.toChainPrice f.level.price = .ok venuePrice)
    (h : w.matchFirst f.order venuePrice f.chainPrice = .ok next) : Nonempty (Match u w next) := by
  obtain ⟨venueBase, venueBase_eq, h⟩ := bind_eq_ok.mp h
  obtain ⟨chainBase, chainBase_eq, h⟩ := bind_eq_ok.mp h
  obtain ⟨plan, extended, h⟩ := bind_eq_ok.mp h
  obtain ⟨proceeds, cost, extended⟩ := Plan.extends_of_extend extended
  have direction : plan.direction = w.plan.direction :=
    extended.direction_eq.trans (direction_reached w f.order)
  rw [direction] at h
  cases side : w.plan.direction with
  | chainBid =>
    rw [side] at h
    obtain ⟨venueLeft, difference, h⟩ := bind_eq_ok.mp h
    obtain ⟨chainLeft, rest, h⟩ := bind_eq_ok.mp h
    obtain rfl := Except.ok.inj h
    exact ⟨⟨f, crossing, venueLeft_pos, chainLeft_pos, venuePrice, venueBase, chainBase, proceeds,
      cost, scaled, venueBase_eq, chainBase_eq, extended,
      by unfold Leaves; rw [side]; exact ⟨difference, rest⟩, rfl, rfl, rfl⟩⟩
  | venueBid =>
    rw [side] at h
    obtain ⟨chainLeft, difference, h⟩ := bind_eq_ok.mp h
    obtain ⟨venueLeft, rest, h⟩ := bind_eq_ok.mp h
    obtain rfl := Except.ok.inj h
    exact ⟨⟨f, crossing, venueLeft_pos, chainLeft_pos, venuePrice, venueBase, chainBase, proceeds,
      cost, scaled, venueBase_eq, chainBase_eq, extended,
      by unfold Leaves; rw [side]; exact ⟨difference, rest⟩, rfl, rfl, rfl⟩⟩

/-- A step does nothing but what `Step` says. -/
theorem step_cases {p : Progress} (h : w.step u = .ok p) : Step u w p := by
  unfold step at h
  split at h
  · next level levels o orders venue chain =>
    obtain ⟨⟨⟩, onSide, h⟩ := bind_eq_ok.mp h
    obtain ⟨chainPrice, price, h⟩ := bind_eq_ok.mp h
    obtain ⟨human, human_eq, h⟩ := bind_eq_ok.mp h
    let f : Front u w := ⟨level, o, chainPrice, human, by rw [venue]; rfl, by rw [chain]; rfl,
      liftM_eq_ok.mp onSide, liftM_eq_ok.mp price, human_eq⟩
    -- one branch for each check, and the books apart in the last of them
    split_ifs at h with crossing venueOut chainOut
    · obtain rfl := Except.ok.inj h
      exact .passLevel f crossing (by simpa using le_iff_value.mp venueOut)
    · obtain rfl := Except.ok.inj h
      exact .passOrder f crossing (by simpa using le_iff_value.mp chainOut)
    · obtain ⟨venuePrice, scaled, h⟩ := bind_eq_ok.mp h
      obtain ⟨next, matched, h⟩ := bind_eq_ok.mp h
      obtain rfl := Except.ok.inj h
      have venueLeft_pos := lt_iff_value.mp (not_le_iff_lt.mp venueOut)
      have chainLeft_pos := lt_iff_value.mp (not_le_iff_lt.mp chainOut)
      rw [value_zero] at venueLeft_pos chainLeft_pos
      obtain ⟨m⟩ := match_of_matchFirst (f := f) crossing venueLeft_pos chainLeft_pos scaled matched
      exact .matching m
    · obtain rfl := Except.ok.inj h
      exact .apart f crossing
  · -- one of the books has no first entry
    next empty =>
    obtain rfl := Except.ok.inj h
    refine .ranOut ?_
    rcases venue : w.venue with _ | ⟨level, levels⟩
    · exact .inl rfl
    · rcases chain : w.chain with _ | ⟨o, orders⟩
      · exact .inr rfl
      · exact absurd chain (empty _ _ _ _ venue)

/-! ### One match -/

theorem quoteLeft_cases {left ofBase matched price r : Decimal}
    (h : quoteLeft left ofBase matched price = .ok r) :
    matched.value = ofBase.value ∧ r = .zero ∨
      matched.value ≠ ofBase.value ∧
        ∃ taken, matched.mul? price = some taken ∧ left.sub? taken = some r := by
  unfold quoteLeft at h
  split_ifs at h with all
  · exact .inl ⟨sameValue_iff_value.mp all, (Except.ok.inj h).symm⟩
  · obtain ⟨taken, product, difference⟩ := bind_eq_ok.mp h
    exact .inr ⟨fun same => all (sameValue_iff_value.mpr same), taken, orError_eq_ok.mp product,
      orAbort_eq_ok.mp difference⟩

/-- One side of a match holds base and the other holds quote, which its price divides. -/
theorem Match.sides (m : Match u w next) :
    w.plan.direction = .chainBid ∧ m.venueBase = w.venueLeft ∧
        w.chainLeft.div? m.chainPrice = some m.chainBase ∧
        w.venueLeft.sub? m.matched = some next.venueLeft ∧
        quoteLeft w.chainLeft m.chainBase m.matched m.chainPrice = .ok next.chainLeft ∨
      w.plan.direction = .venueBid ∧ m.chainBase = w.chainLeft ∧
        w.venueLeft.div? m.venuePrice = some m.venueBase ∧
        w.chainLeft.sub? m.matched = some next.chainLeft ∧
        quoteLeft w.venueLeft m.venueBase m.matched m.venuePrice = .ok next.venueLeft := by
  have leaves := m.leaves
  have venueBase := m.venueBase_eq
  have chainBase := m.chainBase_eq
  unfold Leaves at leaves
  unfold Walk.venueBase at venueBase
  unfold Walk.chainBase at chainBase
  cases side : w.plan.direction with
  | chainBid =>
    rw [side] at leaves venueBase chainBase
    exact .inl ⟨rfl, (Except.ok.inj venueBase).symm, orError_eq_ok.mp chainBase,
      orAbort_eq_ok.mp leaves.1, leaves.2⟩
  | venueBid =>
    rw [side] at leaves venueBase chainBase
    exact .inr ⟨rfl, (Except.ok.inj chainBase).symm, orError_eq_ok.mp venueBase,
      orAbort_eq_ok.mp leaves.1, leaves.2⟩

/-- The base that meets. -/
def Meeting.matched (m : Meeting u w) : Decimal := m.venueBase.min m.chainBase

/-- A match is one of a level and an order that meet. -/
def Match.meeting (m : Match u w next) : Meeting u w :=
  ⟨m.toFront, m.crossing, m.venueLeft_pos, m.chainLeft_pos, m.venuePrice, m.venueBase, m.chainBase,
    m.venuePrice_eq, m.venueBase_eq, m.chainBase_eq⟩

theorem Match.matched_value (m : Match u w next) :
    m.matched.value = Min.min m.venueBase.value m.chainBase.value :=
  value_min _ _

/-- One side that meets holds base and the other holds quote, which its price divides. -/
theorem Meeting.sides (m : Meeting u w) :
    w.plan.direction = .chainBid ∧ m.venueBase = w.venueLeft ∧
        w.chainLeft.div? m.chainPrice = some m.chainBase ∨
      w.plan.direction = .venueBid ∧ m.chainBase = w.chainLeft ∧
        w.venueLeft.div? m.venuePrice = some m.venueBase := by
  have venueBase := m.venueBase_eq
  have chainBase := m.chainBase_eq
  unfold Walk.venueBase at venueBase
  unfold Walk.chainBase at chainBase
  cases side : w.plan.direction with
  | chainBid =>
    rw [side] at venueBase chainBase
    exact .inl ⟨rfl, (Except.ok.inj venueBase).symm, orError_eq_ok.mp chainBase⟩
  | venueBid =>
    rw [side] at venueBase chainBase
    exact .inr ⟨rfl, (Except.ok.inj chainBase).symm, orError_eq_ok.mp venueBase⟩

theorem Meeting.chainPrice_pos (m : Meeting u w) : 0 < m.chainPrice.value :=
  Tick.price_pos m.price_eq

theorem Match.chainPrice_pos (m : Match u w next) : 0 < m.chainPrice.value :=
  m.meeting.chainPrice_pos

/-- A bid that crosses an ask of the chain has a price that can be divided by. -/
theorem Meeting.venuePrice_pos (m : Meeting u w) (side : w.plan.direction = .venueBid)
    (nonzero : m.venuePrice.value ≠ 0) : 0 < m.venuePrice.value := by
  have crossing := m.crossing
  rw [Front.Crossing, side] at crossing
  have ask : 0 ≤ m.human.value :=
    (Units.roundsTo_of_toHumanPrice m.human_eq).nonneg (mul_pos m.chainPrice_pos (by positivity)).le
  have bid : 0 ≤ m.level.price.value := ask.trans (le_iff_value.mp crossing)
  have nonneg : 0 ≤ m.venuePrice.value :=
    (Units.roundsTo_of_toChainPrice m.venuePrice_eq).nonneg (mul_nonneg bid (by positivity))
  exact lt_of_le_of_ne nonneg nonzero.symm

theorem Match.venuePrice_pos (m : Match u w next) (side : w.plan.direction = .venueBid)
    (nonzero : m.venuePrice.value ≠ 0) : 0 < m.venuePrice.value :=
  m.meeting.venuePrice_pos side nonzero

theorem Meeting.matched_nonneg (m : Meeting u w) : 0 ≤ m.matched.value := by
  rw [Meeting.matched, value_min]
  rcases m.sides with ⟨-, venue, chain⟩ | ⟨side, chain, venue⟩
  · rw [venue]
    exact le_min m.venueLeft_pos.le
      ((roundsTo_of_div? chain).nonneg (div_pos m.chainLeft_pos m.chainPrice_pos).le)
  · rw [chain]
    have price := m.venuePrice_pos side (value_ne_zero_of_div? venue)
    exact le_min ((roundsTo_of_div? venue).nonneg (div_pos m.venueLeft_pos price).le)
      m.chainLeft_pos.le

theorem Match.matched_nonneg (m : Match u w next) : 0 ≤ m.matched.value :=
  m.meeting.matched_nonneg

theorem Match.base_le (m : Match u w next) : w.plan.base.value ≤ next.plan.base.value := by
  rw [← (amounts_reached w m.order).2.1]
  exact m.extended.base_le m.matched_nonneg

private theorem sub?_self {a b r : Decimal} (same : b.value = a.value) (h : a.sub? b = some r) :
    r.value = 0 := by
  have rounds := roundsTo_of_sub? h
  rw [same, sub_self] at rounds
  exact_mod_cast RoundsTo.value_eq_int (n := 0) (by simpa using rounds)

/-- A match exhausts the level or the order. -/
theorem Match.exhausts (m : Match u w next) :
    next.venueLeft.value ≤ 0 ∨ next.chainLeft.value ≤ 0 := by
  -- the side with less base gives all of it: base is subtracted from itself, quote is set to zero
  have matched := m.matched_value
  rcases le_total m.venueBase.value m.chainBase.value with venueLess | chainLess
  · rw [min_eq_left venueLess] at matched
    rcases m.sides with ⟨-, venue, -, difference, -⟩ | ⟨-, -, -, -, rest⟩
    · exact .inl (sub?_self (matched.trans (by rw [venue])) difference).le
    · obtain ⟨-, left⟩ | ⟨differs, -⟩ := quoteLeft_cases rest
      · simp [left]
      · exact absurd matched differs
  · rw [min_eq_right chainLess] at matched
    rcases m.sides with ⟨-, -, -, -, rest⟩ | ⟨-, chain, -, difference, -⟩
    · obtain ⟨-, left⟩ | ⟨differs, -⟩ := quoteLeft_cases rest
      · simp [left]
      · exact absurd matched differs
    · exact .inr (sub?_self (matched.trans (by rw [chain])) difference).le

/-! ### The whole walk -/

/-- A bound for the steps a walk makes before the one that ends it. -/
def pending (w : Walk) : Nat :=
  2 * (w.venue.length + w.chain.length) +
    if 0 < w.venueLeft.value ∧ 0 < w.chainLeft.value then 1 else 0

theorem firstSize_le {amount : ℚ} (nonneg : 0 ≤ amount) {venue : List Venue.Level}
    (h : ∀ l ∈ venue, l.size.value ≤ amount) : (firstSize venue).value ≤ amount := by
  cases venue with
  | nil => rwa [firstSize, value_zero]
  | cons l rest => exact h l List.mem_cons_self

theorem firstQuantity_le {amount : ℚ} (nonneg : 0 ≤ amount) {chain : List Chain.Order}
    (h : ∀ o ∈ chain, o.quantity.value ≤ amount) : (firstQuantity chain).value ≤ amount := by
  cases chain with
  | nil => rwa [firstQuantity, value_zero]
  | cons o rest => exact h o List.mem_cons_self

theorem pending_start_le (direction : Direction) (venue : List Venue.Level)
    (chain : List Chain.Order) :
    (start direction venue chain).pending ≤ (start direction venue chain).budget := by
  unfold pending budget
  split_ifs <;> omega

/-- Every step that does not end the walk brings it closer to its end. -/
theorem pending_lt (h : Step u w (.more next)) : next.pending < w.pending := by
  cases h with
  | passLevel f crossing exhausted =>
    -- the entry that is passed pays for itself and for a match of the next one
    have length : w.venue.length = w.venue.tail.length + 1 := by rw [f.venue_eq]; rfl
    unfold pending passLevel
    split_ifs <;> dsimp only <;> omega
  | passOrder f crossing exhausted =>
    have length : w.chain.length = w.chain.tail.length + 1 := by rw [f.chain_eq]; rfl
    unfold pending passOrder
    split_ifs <;> dsimp only <;> omega
  | matching m =>
    -- a match pays with the one that stands for two entries that are not exhausted
    have exhausted : ¬ (0 < next.venueLeft.value ∧ 0 < next.chainLeft.value) := by
      rintro ⟨venue, chain⟩
      rcases m.exhausts with h | h <;> linarith
    unfold pending
    rw [if_neg exhausted, if_pos ⟨m.venueLeft_pos, m.chainLeft_pos⟩, m.venue_same, m.chain_same]
    omega

theorem pending_pos (h : Step u w (.more next)) : 1 < w.pending := by
  have one {f : Front u w} : 1 ≤ w.venue.length := by rw [f.venue_eq]; simp
  unfold pending
  cases h with
  | passLevel f crossing exhausted => have := @one f; omega
  | passOrder f crossing exhausted => have := @one f; omega
  | matching m => have := @one m.toFront; omega

/-- Induction over a walk with enough steps, from its end: it ends with a step that ends it. -/
theorem run_induction {motive : Nat → Walk → Plan → Prop}
    (finished : ∀ {fuel w plan}, Step u w (.finished plan) → motive (fuel + 1) w plan)
    (more : ∀ {fuel w next plan}, w.step u = .ok (.more next) → motive fuel next plan →
      motive (fuel + 1) w plan)
    {fuel : Nat} (enough : w.pending ≤ fuel) (positive : 0 < fuel)
    (h : w.run u fuel = .ok plan) : motive fuel w plan := by
  induction fuel generalizing w with
  | zero => exact absurd positive (lt_irrefl 0)
  | succ fuel ih =>
    obtain ⟨progress, step, h⟩ := bind_eq_ok.mp h
    cases progress with
    | finished ended =>
      obtain rfl := Except.ok.inj h
      exact finished (step_cases step)
    | more next =>
      have closer := pending_lt (step_cases step)
      have positive := pending_pos (step_cases step)
      exact more step (ih (by omega) (by omega) h)

/-- No step turns a walk around. -/
theorem direction_of_step (h : Step u w (.more next)) :
    next.plan.direction = w.plan.direction := by
  cases h with
  | passLevel f crossing exhausted => rfl
  | passOrder f crossing exhausted => rfl
  | matching m => exact m.extended.direction_eq.trans (direction_reached w m.order)

/-- What holds before every step of a walk holds before the step that ends it. -/
theorem run_ends_of_step {P : Walk → Prop}
    (preserved : ∀ {w next}, P w → w.step u = .ok (.more next) → P next) {fuel : Nat}
    (enough : w.pending ≤ fuel) (positive : 0 < fuel) (initial : P w)
    (h : w.run u fuel = .ok plan) : ∃ last, P last ∧ Step u last (.finished plan) := by
  refine run_induction (u := u) (motive := fun _ w plan =>
    P w → ∃ last, P last ∧ Step u last (.finished plan)) ?_ ?_ enough positive h initial
  · intro fuel w plan ends holds
    exact ⟨w, holds, ends⟩
  · intro fuel w next plan step later holds
    exact later (preserved holds step)

theorem plan_of_finished (h : Step u w (.finished plan)) : plan = w.plan := by
  cases h <;> rfl

/-- What every step keeps holds of the walk whose plan comes out, however many steps are allowed. -/
theorem run_keeps {P : Walk → Prop}
    (preserved : ∀ {w next}, P w → Step u w (.more next) → P next) {fuel : Nat} (initial : P w)
    (h : w.run u fuel = .ok plan) : ∃ last, P last ∧ plan = last.plan := by
  induction fuel generalizing w with
  | zero => exact ⟨w, initial, (Except.ok.inj h).symm⟩
  | succ fuel ih =>
    obtain ⟨progress, step, h⟩ := bind_eq_ok.mp h
    cases progress with
    | finished ended =>
      obtain rfl := Except.ok.inj h
      exact ⟨w, initial, plan_of_finished (step_cases step)⟩
    | more next => exact ih (preserved initial (step_cases step)) h

/-- The failures of a walk are those of its steps. -/
theorem failsOnly_run {P : Failure → Prop} {I : Walk → Prop}
    (step : ∀ {w}, I w → FailsOnly P (w.step u))
    (preserved : ∀ {w next}, I w → Step u w (.more next) → I next) (fuel : Nat) (initial : I w) :
    FailsOnly P (w.run u fuel) := by
  induction fuel generalizing w with
  | zero => exact failsOnly_ok _
  | succ fuel ih =>
    refine failsOnly_bind.mpr ⟨step initial, fun progress stepped => ?_⟩
    cases progress with
    | finished plan => exact failsOnly_ok plan
    | more next => exact ih (preserved initial (step_cases stepped))

theorem steps_reached (w : Walk) (o : Chain.Order) : (w.reached o).steps = w.plan.steps := by
  unfold reached
  split_ifs <;> rfl

theorem length_steps_of_match (m : Match u w next) :
    next.plan.steps.length = w.plan.steps.length + 1 := by
  rw [m.extended.steps_eq, steps_reached, List.length_append, List.length_singleton]

/-- The entries of both books that are not exhausted. -/
def unspent (w : Walk) : Nat :=
  (w.venue.length - if w.venueLeft.value ≤ 0 then 1 else 0) +
    (w.chain.length - if w.chainLeft.value ≤ 0 then 1 else 0)

theorem unspent_le (w : Walk) : w.unspent ≤ w.venue.length + w.chain.length :=
  Nat.add_le_add (Nat.sub_le _ _) (Nat.sub_le _ _)

/-- A level and an order that meet are not exhausted. -/
theorem Meeting.two_le_unspent (m : Meeting u w) : 2 ≤ w.unspent := by
  have venue : 1 ≤ w.venue.length := by rw [m.venue_eq]; simp
  have chain : 1 ≤ w.chain.length := by rw [m.chain_eq]; simp
  rw [unspent, if_neg (not_le.mpr m.venueLeft_pos), if_neg (not_le.mpr m.chainLeft_pos)]
  omega

/-- Every match exhausts an entry. -/
theorem steps_add_unspent_le (h : Step u w (.more next)) :
    next.plan.steps.length + next.unspent ≤ w.plan.steps.length + w.unspent := by
  cases h with
  | passLevel f crossing exhausted =>
    have length : w.venue.length = w.venue.tail.length + 1 := by rw [f.venue_eq]; rfl
    unfold unspent passLevel
    rw [if_pos exhausted]
    dsimp only
    omega
  | passOrder f crossing exhausted =>
    have length : w.chain.length = w.chain.tail.length + 1 := by rw [f.chain_eq]; rfl
    unfold unspent passOrder
    rw [if_pos exhausted]
    dsimp only
    omega
  | matching m =>
    have two := m.meeting.two_le_unspent
    have venue : 1 ≤ w.venue.length := by rw [m.venue_eq]; simp
    have chain : 1 ≤ w.chain.length := by rw [m.chain_eq]; simp
    rw [length_steps_of_match m]
    unfold unspent
    rw [m.venue_same, m.chain_same, if_neg (not_le.mpr m.venueLeft_pos),
      if_neg (not_le.mpr m.chainLeft_pos)]
    rcases m.exhausts with spent | spent
    · rw [if_pos spent]
      omega
    · rw [if_pos spent]
      omega

end Walk

/-! ### Consistent plans -/

namespace Plan

variable {p q : Plan} {matched venuePrice chainPrice proceeds cost : Decimal}

/-- A plan has no negative base and no negative cost, as little as its steps have. Its touches are
in the order they were reached in, and the first of them was reached before anything was matched. -/
structure Consistent (p : Plan) : Prop where
  base_nonneg : 0 ≤ p.base.value
  chainQuote_nonneg : 0 ≤ p.chainQuote.value
  steps_nonneg : ∀ s ∈ p.steps,
    0 ≤ s.baseBefore.value ∧ 0 ≤ s.chainQuoteBefore.value ∧ 0 < s.chainPrice.value
  touches_sorted : p.touches.Pairwise fun a b => a.baseBefore.value ≤ b.baseBefore.value
  touches_within : ∀ t ∈ p.touches, 0 ≤ t.baseBefore.value ∧ t.baseBefore.value ≤ p.base.value
  first_touch : p.touches = [] ∧ p.base.value = 0 ∨ ∃ t ∈ p.touches, t.baseBefore.value = 0

theorem consistent_empty (direction : Direction) : (empty direction).Consistent where
  base_nonneg := by simp [empty]
  chainQuote_nonneg := by simp [empty]
  steps_nonneg := by simp [empty]
  touches_sorted := by simp [empty]
  touches_within := by simp [empty]
  first_touch := .inl ⟨rfl, by simp [empty]⟩

theorem Consistent.touch (h : p.Consistent) (o : Chain.Order) : (p.touch o).Consistent where
  base_nonneg := h.base_nonneg
  chainQuote_nonneg := h.chainQuote_nonneg
  steps_nonneg := h.steps_nonneg
  touches_sorted := by
    refine List.pairwise_append.mpr ⟨h.touches_sorted, List.pairwise_singleton _ _, ?_⟩
    rintro earlier reached later last
    obtain rfl := List.mem_singleton.mp last
    exact (h.touches_within earlier reached).2
  touches_within := by
    rintro t reached
    rcases List.mem_append.mp reached with earlier | last
    · exact h.touches_within t earlier
    · obtain rfl := List.mem_singleton.mp last
      exact ⟨h.base_nonneg, le_refl _⟩
  first_touch := by
    refine .inr ?_
    rcases h.first_touch with ⟨-, nothing⟩ | ⟨t, reached, zero⟩
    · exact ⟨_, List.mem_append_right _ (List.mem_singleton_self _), nothing⟩
    · exact ⟨t, List.mem_append_left _ reached, zero⟩

/-- A match at a price of the chain keeps a plan consistent that has reached an order. -/
theorem Consistent.extends (h : p.Consistent) (reached : p.touches ≠ [])
    (nonneg : 0 ≤ matched.value) (price_pos : 0 < chainPrice.value)
    (extended : p.Extends matched venuePrice chainPrice proceeds cost q) : q.Consistent := by
  -- sums of what is not negative stay so when they are rounded, and base only grows
  have grows := extended.base_le nonneg
  have costs : 0 ≤ cost.value :=
    (roundsTo_of_mul? extended.cost_eq).nonneg (mul_nonneg nonneg price_pos.le)
  constructor
  · exact h.base_nonneg.trans grows
  · exact (roundsTo_of_add? extended.chainQuote_eq).nonneg (add_nonneg h.chainQuote_nonneg costs)
  · rw [extended.steps_eq]
    rintro s among
    rcases List.mem_append.mp among with earlier | last
    · exact h.steps_nonneg s earlier
    · obtain rfl := List.mem_singleton.mp last
      exact ⟨h.base_nonneg, h.chainQuote_nonneg, price_pos⟩
  · rw [extended.touches_eq]
    exact h.touches_sorted
  · rw [extended.touches_eq]
    exact fun t among => (h.touches_within t among).imp_right fun le => le.trans grows
  · rw [extended.touches_eq]
    exact .inr (h.first_touch.resolve_left fun none => reached none.1)

end Plan

namespace Walk

variable {u : Units} {w next : Walk} {plan : Plan}

/-- The plan of the walk is consistent, and a first order that was reached is among its touches. -/
structure Consistent (w : Walk) : Prop where
  plan : w.plan.Consistent
  touches : w.touched = true → w.plan.touches ≠ []

theorem Consistent.reached (h : w.Consistent) (o : Chain.Order) :
    (w.reached o).Consistent ∧ (w.reached o).touches ≠ [] := by
  unfold Walk.reached
  split_ifs with touched
  · exact ⟨h.plan, h.touches touched⟩
  · exact ⟨h.plan.touch o, by simp [Plan.touch]⟩

/-- Every step keeps a walk consistent. -/
theorem Consistent.step (h : w.Consistent) (step : Step u w (.more next)) : next.Consistent := by
  cases step with
  -- an order stays reached while levels pass, and the next order is not reached yet
  | passLevel f crossing exhausted => exact ⟨h.plan, h.touches⟩
  | passOrder f crossing exhausted => exact ⟨h.plan, nofun⟩
  | matching m =>
    obtain ⟨consistent, reached⟩ := h.reached m.order
    refine ⟨consistent.extends reached m.matched_nonneg m.chainPrice_pos m.extended, fun _ => ?_⟩
    rw [m.extended.touches_eq]
    exact reached

end Walk

namespace Plan

variable {u : Units} {direction : Direction} {venue : List Venue.Level} {chain : List Chain.Order}
  {plan : Plan}

/-- What holds before every step of sizing a plan holds at the end. -/
theorem size_ends {P : Walk → Prop}
    (preserved : ∀ {w next}, P w → Walk.Step u w (.more next) → P next)
    (initial : P (Walk.start direction venue chain))
    (h : Plan.size u direction venue chain = .ok plan) : ∃ last, P last ∧ plan = last.plan :=
  Walk.run_keeps preserved initial h

/-- Sized plans are consistent. -/
theorem size_consistent (h : Plan.size u direction venue chain = .ok plan) : plan.Consistent := by
  obtain ⟨last, consistent, rfl⟩ := size_ends Walk.Consistent.step
    ⟨consistent_empty direction, nofun⟩ h
  exact consistent.plan

theorem size_direction (h : Plan.size u direction venue chain = .ok plan) :
    plan.direction = direction := by
  obtain ⟨last, same, rfl⟩ := size_ends (P := fun w => w.plan.direction = direction)
    (fun same step => (Walk.direction_of_step step).trans same) rfl h
  exact same

end Plan

end CrossBook.Trade
