import CrossBook.Proofs.Trade.Depth

/-!
# Walks that never round

Every step of a walk performs a number of operations on decimals. Where none of them rounds, the
amounts of the walk are the numbers they stand for.

## Main definitions

* `Decimal.Operation` — an operation on two decimals, with `Operation.IsExact`
* `Trade.Walk.operations` — the operations of one step, in their order
* `Trade.Walk.NeverRounds` — no operation of a walk rounds
* `Trade.Walk.Match.Exact` — a match in exact numbers

## Main results

* `Trade.Walk.Front.human_value`, `Trade.Walk.Match.exact` — a step that does not round is exact
-/

namespace CrossBook

namespace Decimal

/-- An operation on two decimals. -/
inductive Operation where
  | sum (a b : Decimal)
  | difference (a b : Decimal)
  | product (a b : Decimal)
  | quotient (a b : Decimal)

namespace Operation

/-- What an operation comes to. -/
def result? : Operation → Option Decimal
  | sum a b => a.add? b
  | difference a b => a.sub? b
  | product a b => a.mul? b
  | quotient a b => a.div? b

/-- The number an operation would come to without rounding. -/
def exact : Operation → ℚ
  | sum a b => a.value + b.value
  | difference a b => a.value - b.value
  | product a b => a.value * b.value
  | quotient a b => a.value / b.value

/-- The operation does not round. -/
def IsExact (o : Operation) : Prop := ∀ d ∈ o.result?, d.value = o.exact

instance (o : Operation) : Decidable o.IsExact := inferInstanceAs (Decidable (∀ d ∈ _, _))

theorem difference_value {a b r : Decimal} (exact : (difference a b).IsExact)
    (h : a.sub? b = some r) : r.value = a.value - b.value := by
  have value := exact r h
  rwa [Operation.exact] at value

/-- An operation, and then the operations that need its result. -/
def andThen (o : Operation) (next : Decimal → List Operation) : List Operation :=
  o :: (match o.result? with
    | some d => next d
    | none => [])

theorem andThen_exact {o : Operation} {next : Decimal → List Operation} {d : Decimal}
    (exact : ∀ p ∈ o.andThen next, p.IsExact) (h : o.result? = some d) :
    d.value = o.exact ∧ ∀ p ∈ next d, p.IsExact := by
  unfold andThen at exact
  rw [h] at exact
  exact ⟨exact o List.mem_cons_self d h, fun p among => exact p (List.mem_cons_of_mem _ among)⟩

/-- The operation that moves the point, and then the operations that need its result. -/
def shifting (v : Decimal) (exponent : Int) (next : Decimal → List Operation) : List Operation :=
  if 0 ≤ exponent then
    match powerOfTen? exponent with
    | some p => (product v p).andThen next
    | none => []
  else
    match powerOfTen? (-exponent) with
    | some p => (quotient v p).andThen next
    | none => []

theorem shifting_exact {v r : Decimal} {exponent : Int} {next : Decimal → List Operation}
    (exact : ∀ p ∈ shifting v exponent next, p.IsExact) (h : Amount.shift v exponent = .ok r) :
    r.value = v.value * 10 ^ exponent ∧ ∀ p ∈ next r, p.IsExact := by
  unfold shifting at exact
  obtain ⟨right, p, power, result⟩ | ⟨left, p, power, result⟩ := Amount.shift_eq_ok h
  · rw [if_pos right, power] at exact
    rw [← value_of_powerOfTen? power]
    exact andThen_exact exact result
  · rw [if_neg (not_le.mpr left), power] at exact
    obtain ⟨value, rest⟩ := andThen_exact exact result
    refine ⟨?_, rest⟩
    rw [value, Operation.exact, value_of_powerOfTen? power, zpow_neg, div_inv_eq_mul]

end Operation

end Decimal

namespace Trade

open Decimal

/-- The operations that add a match to a plan. -/
def Plan.extending (p : Plan) (matched venuePrice chainPrice : Decimal) : List Operation :=
  (Operation.product matched venuePrice).andThen (fun proceeds => [.sum p.quote proceeds]) ++
    .sum p.base matched ::
      (Operation.product matched chainPrice).andThen fun cost => [.sum p.chainQuote cost]

namespace Walk

variable {u : Units} {w next : Walk}

/-- The operations that take a match from an amount of base and an amount of quote. -/
def leaving (baseLeft quoteLeft ofQuote matched price : Decimal) : List Operation :=
  .difference baseLeft matched ::
    if matched.SameValue ofQuote then []
    else (Operation.product matched price).andThen fun taken => [.difference quoteLeft taken]

/-- The operations of a match. -/
def matching (w : Walk) (venuePrice chainPrice : Decimal) : List Operation :=
  match w.plan.direction with
  | .chainBid =>
    (Operation.quotient w.chainLeft chainPrice).andThen fun chainBase =>
      let matched := w.venueLeft.min chainBase
      w.plan.extending matched venuePrice chainPrice ++
        leaving w.venueLeft w.chainLeft chainBase matched chainPrice
  | .venueBid =>
    (Operation.quotient w.venueLeft venuePrice).andThen fun venueBase =>
      let matched := venueBase.min w.chainLeft
      w.plan.extending matched venuePrice chainPrice ++
        leaving w.chainLeft w.venueLeft venueBase matched venuePrice

/-- The operations of one step. The price of a tick is left out, which never rounds. -/
def operations (u : Units) (w : Walk) : List Operation :=
  match w.venue, w.chain with
  | level :: _, o :: _ =>
    match Tick.price o.tick with
    | .error _ => []
    | .ok chainPrice =>
      -- both prices are only compared unless there is something to match
      Operation.shifting chainPrice u.gap fun human =>
        if w.plan.direction.Crosses human level.price ∧ zero < w.venueLeft ∧ zero < w.chainLeft then
          Operation.shifting level.price (-u.gap) fun venuePrice => w.matching venuePrice chainPrice
        else []
  | _, _ => []

/-- No operation of the walk rounds. -/
def NeverRounds (u : Units) : Nat → Walk → Prop
  | 0, _ => True
  | fuel + 1, w => (∀ o ∈ w.operations u, o.IsExact) ∧
      match w.step u with
      | .ok (.more next) => NeverRounds u fuel next
      | _ => True

instance decidableNeverRounds (u : Units) : ∀ fuel w, Decidable (NeverRounds u fuel w)
  | 0, _ => isTrue trivial
  | fuel + 1, w =>
    have : Decidable (match w.step u with
        | .ok (.more next) => NeverRounds u fuel next
        | _ => True) := by
      split
      · exact decidableNeverRounds u fuel _
      · exact isTrue trivial
    inferInstanceAs (Decidable (_ ∧ _))

theorem NeverRounds.later {fuel : Nat} (h : NeverRounds u (fuel + 1) w)
    (step : w.step u = .ok (.more next)) : NeverRounds u fuel next := by
  have := h.2
  rwa [step] at this

/-! ### Exact steps -/

theorem Front.operations_eq (f : Front u w) :
    w.operations u = Operation.shifting f.chainPrice u.gap fun human =>
      if w.plan.direction.Crosses human f.level.price ∧ zero < w.venueLeft ∧ zero < w.chainLeft then
        Operation.shifting f.level.price (-u.gap) fun venuePrice =>
          w.matching venuePrice f.chainPrice
      else [] := by
  rw [operations, f.venue_eq, f.chain_eq]
  dsimp only [List.tail_cons]
  rw [f.price_eq]

/-- Where the step does not round, the human price of the first order is exact. -/
theorem Front.human_value (f : Front u w) (exact : ∀ o ∈ w.operations u, o.IsExact) :
    f.human.value = humanPrice u f.order := by
  rw [f.operations_eq] at exact
  rw [(Operation.shifting_exact exact (Units.shift_of_toHumanPrice f.human_eq)).1,
    Tick.value_of_price f.price_eq, humanPrice]

/-- A match in exact numbers. -/
structure Match.Exact (m : Match u w next) : Prop where
  matched_pos : 0 < m.matched.value
  matched_le_level : m.matched.value ≤ levelDepth u w.plan.direction w.venueLeft.value m.level
  matched_le_order : m.matched.value ≤ orderDepth w.plan.direction w.chainLeft.value m.order
  base : next.plan.base.value = w.plan.base.value + m.matched.value
  quote : next.plan.quote.value = w.plan.quote.value + m.matched.value * levelPrice u m.level
  chainQuote : next.plan.chainQuote.value =
    w.plan.chainQuote.value + m.matched.value * Tick.exactPrice m.order.tick
  level_left : levelDepth u w.plan.direction next.venueLeft.value m.level =
    levelDepth u w.plan.direction w.venueLeft.value m.level - m.matched.value
  order_left : orderDepth w.plan.direction next.chainLeft.value m.order =
    orderDepth w.plan.direction w.chainLeft.value m.order - m.matched.value

/-- The amounts of a plan after a match that does not round. -/
theorem extending_exact {p q r : Plan} {matched venuePrice chainPrice proceeds cost : Decimal}
    (exact : ∀ o ∈ p.extending matched venuePrice chainPrice, o.IsExact)
    (extended : r.Extends matched venuePrice chainPrice proceeds cost q) (quote : r.quote = p.quote)
    (base : r.base = p.base) (chainQuote : r.chainQuote = p.chainQuote) :
    q.quote.value = p.quote.value + matched.value * venuePrice.value ∧
      q.base.value = p.base.value + matched.value ∧
      q.chainQuote.value = p.chainQuote.value + matched.value * chainPrice.value := by
  -- the operations come as they are performed: quote at the venue, base, quote on the chain
  obtain ⟨venueOperations, otherOperations⟩ := List.forall_mem_append.mp exact
  obtain ⟨baseSum, chainOperations⟩ := List.forall_mem_cons.mp otherOperations
  obtain ⟨proceeds_value, quoteSum⟩ := Operation.andThen_exact venueOperations extended.proceeds_eq
  obtain ⟨cost_value, costSum⟩ := Operation.andThen_exact chainOperations extended.cost_eq
  refine ⟨?_, baseSum _ (base ▸ extended.base_eq), ?_⟩
  · rw [quoteSum _ (List.mem_singleton_self _) _ (quote ▸ extended.quote_eq), Operation.exact,
      proceeds_value, Operation.exact]
  · rw [costSum _ (List.mem_singleton_self _) _ (chainQuote ▸ extended.chainQuote_eq),
      Operation.exact, cost_value, Operation.exact]

/-- What a match that does not round leaves of an amount of base and of an amount of quote is worth
the rest of both. -/
theorem leaving_exact {baseLeft held ofQuote matched price b q : Decimal}
    (base_pos : 0 < baseLeft.value) (held_pos : 0 < held.value) (price_pos : 0 < price.value)
    (worth : ofQuote.value = held.value / price.value) (le_base : matched.value ≤ baseLeft.value)
    (le_quote : matched.value ≤ ofQuote.value)
    (exact : ∀ o ∈ leaving baseLeft held ofQuote matched price, o.IsExact)
    (difference : baseLeft.sub? matched = some b)
    (rest : quoteLeft held ofQuote matched price = .ok q) :
    (∀ p, depth .ask b.value p = depth .ask baseLeft.value p - matched.value) ∧
      depth .bid q.value price.value = depth .bid held.value price.value - matched.value := by
  obtain ⟨difference_exact, taking⟩ := List.forall_mem_cons.mp exact
  constructor
  · intro p
    rw [depth_ask_of_pos base_pos, Operation.difference_value difference_exact difference]
    exact max_eq_right (sub_nonneg.mpr le_base)
  · rw [depth_bid_of_pos held_pos price_pos, ← worth]
    obtain ⟨all, rfl⟩ | ⟨differs, taken, product, difference⟩ := quoteLeft_cases rest
    · rw [depth_of_nonpos (by simp), all, sub_self]
    · -- less than all of its base is matched, so some quote is left
      rw [if_neg (mt sameValue_iff_value.mp differs)] at taking
      obtain ⟨taken_value, last⟩ := Operation.andThen_exact taking product
      have left_value : q.value = held.value - matched.value * price.value := by
        rw [last _ (List.mem_singleton_self _) _ difference, Operation.exact, taken_value,
          Operation.exact]
      have part := lt_of_le_of_ne le_quote differs
      rw [worth, lt_div_iff₀ price_pos] at part
      rw [left_value, depth_bid_of_pos (by linarith) price_pos, worth, sub_div,
        mul_div_cancel_right₀ _ price_pos.ne']

/-- The operations of a match are among those of its step, and its chain prices are exact. -/
theorem Match.matching_exact (m : Match u w next) (exact : ∀ o ∈ w.operations u, o.IsExact) :
    m.venuePrice.value = levelPrice u m.level ∧
      ∀ o ∈ w.matching m.venuePrice m.chainPrice, o.IsExact := by
  rw [m.operations_eq] at exact
  have venueLeft : zero < w.venueLeft := lt_iff_value.mpr (by simpa using m.venueLeft_pos)
  have chainLeft : zero < w.chainLeft := lt_iff_value.mpr (by simpa using m.chainLeft_pos)
  obtain ⟨-, exact⟩ := Operation.shifting_exact exact (Units.shift_of_toHumanPrice m.human_eq)
  rw [if_pos ⟨m.crossing, venueLeft, chainLeft⟩] at exact
  exact Operation.shifting_exact exact (Units.shift_of_toChainPrice m.venuePrice_eq)

/-- The operations that add a match to its plan do not round, and neither do those that take it from
both sides; the side that holds quote holds as much base as that is worth. -/
theorem Match.operations_exact (m : Match u w next) (exact : ∀ o ∈ w.operations u, o.IsExact) :
    (∀ o ∈ w.plan.extending m.matched m.venuePrice m.chainPrice, o.IsExact) ∧
      match w.plan.direction with
      | .chainBid => m.chainBase.value = w.chainLeft.value / m.chainPrice.value ∧
          ∀ o ∈ leaving w.venueLeft w.chainLeft m.chainBase m.matched m.chainPrice, o.IsExact
      | .venueBid => m.venueBase.value = w.venueLeft.value / m.venuePrice.value ∧
          ∀ o ∈ leaving w.chainLeft w.venueLeft m.venueBase m.matched m.venuePrice, o.IsExact := by
  obtain ⟨-, exact⟩ := m.matching_exact exact
  rw [matching] at exact
  rcases m.sides with ⟨side, venueBase, quotient, -⟩ | ⟨side, chainBase, quotient, -⟩
  · rw [side] at exact ⊢
    obtain ⟨worth, exact⟩ := Operation.andThen_exact exact quotient
    have taken : w.venueLeft.min m.chainBase = m.matched := by rw [← venueBase]; rfl
    dsimp only at exact
    rw [taken] at exact
    obtain ⟨extending, leaving⟩ := List.forall_mem_append.mp exact
    exact ⟨extending, worth, leaving⟩
  · rw [side] at exact ⊢
    obtain ⟨worth, exact⟩ := Operation.andThen_exact exact quotient
    have taken : m.venueBase.min w.chainLeft = m.matched := by rw [← chainBase]; rfl
    dsimp only at exact
    rw [taken] at exact
    obtain ⟨extending, leaving⟩ := List.forall_mem_append.mp exact
    exact ⟨extending, worth, leaving⟩

/-- Where the step does not round, a match is exact. -/
theorem Match.exact (m : Match u w next) (exact : ∀ o ∈ w.operations u, o.IsExact) : m.Exact := by
  have venuePrice_value := (m.matching_exact exact).1
  have chainPrice_value := Tick.value_of_price m.price_eq
  obtain ⟨quoteKept, baseKept, chainQuoteKept⟩ := amounts_reached w m.order
  obtain ⟨extending, leaving⟩ := m.operations_exact exact
  obtain ⟨quote, base, chainQuote⟩ :=
    extending_exact extending m.extended quoteKept baseKept chainQuoteKept
  rw [venuePrice_value] at quote
  rw [chainPrice_value] at chainQuote
  have le_venueBase : m.matched.value ≤ m.venueBase.value :=
    m.matched_value.trans_le (min_le_left _ _)
  have le_chainBase : m.matched.value ≤ m.chainBase.value :=
    m.matched_value.trans_le (min_le_right _ _)
  rcases m.sides with ⟨side, venueBase, -, difference, rest⟩ |
    ⟨side, chainBase, quotient, difference, rest⟩
  · -- the order holds quote, and the level base
    rw [side] at leaving
    obtain ⟨worth, leaving⟩ := leaving
    rw [venueBase] at le_venueBase
    obtain ⟨level_left, order_left⟩ := leaving_exact m.venueLeft_pos m.chainLeft_pos
      m.chainPrice_pos worth le_venueBase le_chainBase leaving difference rest
    rw [chainPrice_value] at order_left
    refine ⟨?_, ?_, ?_, base, quote, chainQuote, ?_, ?_⟩
    · rw [m.matched_value, venueBase, worth]
      exact lt_min m.venueLeft_pos (div_pos m.chainLeft_pos m.chainPrice_pos)
    · rwa [side, levelDepth_chainBid, depth_ask_of_pos m.venueLeft_pos]
    · rw [side, orderDepth_chainBid, ← chainPrice_value,
        depth_bid_of_pos m.chainLeft_pos m.chainPrice_pos]
      exact le_chainBase.trans_eq worth
    · rw [side, levelDepth_chainBid, levelDepth_chainBid]
      exact level_left _
    · rwa [side, orderDepth_chainBid, orderDepth_chainBid]
  · -- the level holds quote, and the order base
    have price_pos := m.venuePrice_pos side (value_ne_zero_of_div? quotient)
    rw [side] at leaving
    obtain ⟨worth, leaving⟩ := leaving
    rw [chainBase] at le_chainBase
    obtain ⟨order_left, level_left⟩ := leaving_exact m.chainLeft_pos m.venueLeft_pos price_pos
      worth le_chainBase le_venueBase leaving difference rest
    rw [venuePrice_value] at level_left
    refine ⟨?_, ?_, ?_, base, quote, chainQuote, ?_, ?_⟩
    · rw [m.matched_value, chainBase, worth]
      exact lt_min (div_pos m.venueLeft_pos price_pos) m.chainLeft_pos
    · rw [side, levelDepth_venueBid, ← venuePrice_value, depth_bid_of_pos m.venueLeft_pos price_pos]
      exact le_venueBase.trans_eq worth
    · rwa [side, orderDepth_venueBid, depth_ask_of_pos m.chainLeft_pos]
    · rwa [side, levelDepth_venueBid, levelDepth_venueBid]
    · rw [side, orderDepth_venueBid, orderDepth_venueBid]
      exact order_left _

end Walk

end Trade

end CrossBook
