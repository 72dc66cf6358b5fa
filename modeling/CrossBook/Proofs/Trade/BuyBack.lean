import CrossBook.Proofs.Trade.Fills
import CrossBook.Proofs.Trade.Funding

/-!
# Buying back on the chain

A plan that sells at the venue and buys on the chain is funded by capping its proceeds at the venue,
while the chain is paid at the prices of the steps. Those are never above the average price the cap
is converted at, so the purchase stays within the cap: what rounding adds is cut off with the
fraction of a unit, as long as it adds less than one.

## Main definitions

* `Trade.Plan.Buys` — a base is no more than a capped quote buys
* `Trade.Plan.LeavesRoom` — the amounts of a plan leave room for its roundings

## Main results

* `Trade.Plan.buys_of_fund` — funded base is bought at the average price
* `Trade.Plan.buyBack_covered` — the chain is paid from what is available
-/

namespace CrossBook.Trade

open Decimal

namespace Plan

variable {u : Units} {venue : List Venue.Level} {chain : List Chain.Order} {p r plan : Plan}
  {price baseCap quoteCap base quote baseAvailable quoteAvailable : Decimal}

/-! ### The base that is bought -/

/-- An amount under the cap on quote buys a unit or more at the price, and no less than the base. -/
structure Buys (price baseCap quoteCap base spent bought : Decimal) : Prop where
  spent_nonneg : 0 ≤ spent.value
  spent_le : spent.value ≤ quoteCap.value
  bought_eq : spent.div? price = some bought
  one_le_bought : 1 ≤ bought.value
  base_le : base.value ≤ bought.value
  one_le : 1 ≤ baseCap.value ∨ 1 ≤ spent.value

/-- Where the cap on quote binds, its whole units are spent. -/
theorem buys_of_quote_capped (price_nonneg : 0 ≤ price.value) (quote_nonneg : 0 ≤ quoteCap.value)
    (positive : 0 < ((orZero (quoteCap.trunc.div? price)).trunc.min baseCap).value) :
    ∃ spent bought, Buys price baseCap quoteCap
      ((orZero (quoteCap.trunc.div? price)).trunc.min baseCap) spent bought := by
  rw [value_min, lt_min_iff] at positive
  cases quotient : quoteCap.trunc.div? price with
  | none =>
    rw [quotient] at positive
    exact absurd positive.1 (not_lt.mpr (trunc_nonpos value_zero.le))
  | some bought =>
    rw [quotient] at positive
    have spent_nonneg := trunc_nonneg quote_nonneg
    have rounds := roundsTo_of_div? quotient
    have nonneg := rounds.nonneg (div_nonneg spent_nonneg price_nonneg)
    have one_le := (trunc_isWhole bought).one_le positive.1
    have one_le_bought := one_le.trans (trunc_le nonneg)
    have spent_pos : 0 < quoteCap.trunc.value := by
      refine lt_of_le_of_ne spent_nonneg fun nothing => ?_
      rw [← nothing, zero_div] at rounds
      have none : bought.value = 0 := by
        exact_mod_cast RoundsTo.value_eq_int (n := 0) (by simpa using rounds)
      linarith
    refine ⟨quoteCap.trunc, bought, spent_nonneg, trunc_le quote_nonneg, quotient, one_le_bought,
      ?_, .inr ((trunc_isWhole _).one_le spent_pos)⟩
    rw [value_min]
    exact (min_le_left _ _).trans (trunc_le nonneg)

/-- Where the cap on base binds, its whole units are bought: the cap on quote buys all of it. -/
theorem buys_of_base_capped (base_nonneg : 0 ≤ baseCap.value) (quote_nonneg : 0 ≤ quoteCap.value)
    (enough : baseCap.value ≤ (orZero (quoteCap.div? price)).value)
    (positive : 0 < (baseCap.trunc.min baseCap).value) :
    ∃ spent bought, Buys price baseCap quoteCap (baseCap.trunc.min baseCap) spent bought := by
  rw [value_min, lt_min_iff] at positive
  have one_le := ((trunc_isWhole _).one_le positive.1).trans (trunc_le base_nonneg)
  cases quotient : quoteCap.div? price with
  | none =>
    rw [quotient, orZero, Option.getD_none, value_zero] at enough
    linarith
  | some bought =>
    rw [quotient, orZero, Option.getD_some] at enough
    refine ⟨quoteCap, bought, quote_nonneg, le_rfl, quotient, one_le.trans enough, ?_,
      .inl one_le⟩
    rw [value_min]
    exact (min_le_right _ _).trans enough

/-- The base that is spent under both caps is bought by what is spent of the quote. -/
theorem buys_of_capped (price_nonneg : 0 ≤ price.value) (base_nonneg : 0 ≤ baseCap.value)
    (quote_nonneg : 0 ≤ quoteCap.value)
    (positive : 0 < ((capped price baseCap quoteCap).1.min baseCap).value) :
    ∃ spent bought, Buys price baseCap quoteCap ((capped price baseCap quoteCap).1.min baseCap)
      spent bought := by
  unfold capped at positive ⊢
  split_ifs at positive ⊢ with quoteBinds
  · exact buys_of_quote_capped price_nonneg quote_nonneg positive
  · rw [lt_iff_value, not_lt] at quoteBinds
    exact buys_of_base_capped base_nonneg quote_nonneg quoteBinds positive

/-- What is bought is worth hardly more than what is spent for it. -/
theorem Buys.worth_le {spent bought : Decimal} (h : Buys price baseCap quoteCap base spent bought)
    (price_nonneg : 0 ≤ price.value) (small : spent.value ≤ 2 * 10 ^ 25) :
    bought.value * price.value ≤ spent.value + 1 / 100 := by
  have price_pos : 0 < price.value :=
    lt_of_le_of_ne price_nonneg (value_ne_zero_of_div? h.bought_eq).symm
  have near := ((roundsTo_of_div? h.bought_eq).near (div_nonneg h.spent_nonneg price_nonneg)).1
  have worth := mul_le_mul_of_nonneg_right near price_nonneg
  rw [add_mul, div_mul_cancel₀ _ price_pos.ne', slack] at worth
  -- a unit at least is bought, so the price is not above what all of it is worth
  have unit := mul_le_mul_of_nonneg_right h.one_le_bought price_nonneg
  linarith

/-- At its average price, the base of a plan comes to its quote but for rounding. -/
theorem quote_le_of_price? (h : p.price? = some price) :
    p.quote.value ≤ p.base.value * (price.value + slack price.value) := by
  obtain ⟨base_pos, quote_pos, -⟩ := price_pos_of_price? h
  by_cases empty : p.IsEmpty
  · rw [price?, if_pos empty] at h
    cases h
  · rw [price?, if_neg empty] at h
    have near := ((roundsTo_of_div? h).near (div_pos quote_pos base_pos).le).2
    rwa [div_le_iff₀' base_pos] at near

/-! ### Room for rounding -/

/-- The amounts of the plan are small enough for what the roundings of its steps add up to: two of
the twenty-eight places are left for them. -/
def LeavesRoom (p : Plan) : Prop :=
  (p.steps.length + 5) * (1 + p.base.value + p.quote.value) ≤ 10 ^ 26

instance (p : Plan) : Decidable p.LeavesRoom := inferInstanceAs (Decidable (_ ≤ _))

theorem LeavesRoom.amounts_le (room : p.LeavesRoom) (base_nonneg : 0 ≤ p.base.value)
    (quote_nonneg : 0 ≤ p.quote.value) : 1 + p.base.value + p.quote.value ≤ 2 * 10 ^ 25 := by
  unfold LeavesRoom at room
  have steps : (0 : ℚ) ≤ p.steps.length := Nat.cast_nonneg _
  have := mul_nonneg steps (by linarith : 0 ≤ 1 + p.base.value + p.quote.value)
  linarith

/-- Where a plan with some base brings in a price for it, its sums are hardly off at the price. -/
theorem LeavesRoom.stepSlack_le (room : p.LeavesRoom) (quarter : 1 / 4 ≤ p.base.value)
    (quote_nonneg : 0 ≤ p.quote.value) {x : ℚ} (nonneg : 0 ≤ x)
    (worth : p.base.value * x ≤
      p.quote.value + p.steps.length * stepSlack x p.base.value p.quote.value) :
    p.steps.length * stepSlack x p.base.value p.quote.value + x * slack p.base.value ≤ 1 / 10 := by
  unfold LeavesRoom at room
  unfold stepSlack slack at worth ⊢
  have steps : (0 : ℚ) ≤ p.steps.length := Nat.cast_nonneg _
  generalize (p.steps.length : ℚ) = n at *
  have bases := mul_nonneg steps (by linarith : 0 ≤ p.base.value)
  have quotes := mul_nonneg steps quote_nonneg
  have priced := mul_le_mul_of_nonneg_left
    (by linarith : n * (1 + p.base.value) ≤ 10 ^ 26) nonneg
  -- the slack is a small part of the price, so the quote bounds the price of the base
  have part := mul_le_mul_of_nonneg_right quarter nonneg
  have bound : x * (1 + p.base.value) ≤ 6 * (1 + p.quote.value) := by linarith
  have all := mul_le_mul_of_nonneg_left bound (by linarith : 0 ≤ n + 1)
  linarith

/-! ### The cost of what is bought -/

/-- The steps that begin before the base of a resized plan are repriced for it. -/
theorem repriced_of_resize (h : p.resize base quote = .ok r) :
    repriced base (p.steps.filter fun s => s.baseBefore < base) = .ok r.chainQuote ∧
      r.base = base := by
  obtain ⟨chainQuote, cost, h⟩ := bind_eq_ok.mp h
  obtain rfl := Except.ok.inj h
  exact ⟨cost, rfl⟩

/-- A funded plan with some base is repriced for it, which is bought at the average price. -/
theorem buys_of_fund (h : p.fund baseAvailable quoteAvailable = .ok r)
    (positive : 0 < r.base.value) : ∃ price spent bought, p.price? = some price ∧
      Buys price (p.baseCap baseAvailable) (p.quoteCap quoteAvailable) r.base spent bought ∧
      repriced r.base (p.steps.filter fun s => s.baseBefore < r.base) = .ok r.chainQuote := by
  unfold Plan.fund at h
  cases found : p.price? with
  | none =>
    rw [found] at h
    rw [(repriced_of_resize h).2, value_zero] at positive
    exact absurd positive (lt_irrefl 0)
  | some price =>
    rw [found] at h
    obtain ⟨cost, base⟩ := repriced_of_resize h
    rw [← base] at cost
    obtain ⟨base_pos, quote_pos, price_nonneg⟩ := price_pos_of_price? found
    have baseCap_nonneg : 0 ≤ (p.baseCap baseAvailable).value := by
      rw [value_baseCap]
      exact le_min base_pos.le (le_max_right _ _)
    have quoteCap_nonneg : 0 ≤ (p.quoteCap quoteAvailable).value := by
      rw [value_quoteCap]
      exact le_min quote_pos.le (le_max_right _ _)
    have base : r.base = (capped price (p.baseCap baseAvailable)
      (p.quoteCap quoteAvailable)).1.min (p.baseCap baseAvailable) := base
    rw [base] at positive
    obtain ⟨spent, bought, buys⟩ :=
      buys_of_capped price_nonneg baseCap_nonneg quoteCap_nonneg positive
    rw [← base] at buys
    exact ⟨price, spent, bought, rfl, buys, cost⟩

/-- A plan that buys a unit has some base. -/
theorem Buys.quarter_le {spent bought : Decimal} (h : Buys price baseCap quoteCap base spent bought)
    (average : p.price? = some price) (room : p.LeavesRoom)
    (baseCap_le : baseCap.value ≤ p.base.value) (quoteCap_le : quoteCap.value ≤ p.quote.value) :
    1 / 4 ≤ p.base.value := by
  obtain ⟨base_pos, quote_pos, price_nonneg⟩ := price_pos_of_price? average
  have amounts := room.amounts_le base_pos.le quote_pos.le
  have spent_le := h.spent_le.trans quoteCap_le
  rcases h.one_le with one_le | one_le
  · linarith
  · -- what is spent buys a unit or more, and there is no less quote than that
    by_contra less
    have worth := h.worth_le price_nonneg (by linarith)
    have unit := mul_le_mul_of_nonneg_right h.one_le_bought price_nonneg
    have brought := quote_le_of_price? average
    unfold slack at brought
    have part := mul_le_mul_of_nonneg_right (not_le.mp less).le price_nonneg
    linarith

/-- At a price that the plan brings in for its base, the base that is bought costs what is spent,
but for rounding. -/
theorem Buys.base_mul_le {spent bought : Decimal}
    (h : Buys price baseCap quoteCap base spent bought) (average : p.price? = some price)
    (room : p.LeavesRoom) (quoteCap_le : quoteCap.value ≤ p.quote.value)
    (nonneg : 0 ≤ base.value) (base_le : base.value ≤ p.base.value) {x off : ℚ}
    (off_nonneg : 0 ≤ off) (worth : p.base.value * x ≤ p.quote.value + off) :
    base.value * x ≤ spent.value + off + 1 / 10 := by
  obtain ⟨base_pos, quote_pos, price_nonneg⟩ := price_pos_of_price? average
  have amounts := room.amounts_le base_pos.le quote_pos.le
  have spent_le := h.spent_le.trans quoteCap_le
  have brought := quote_le_of_price? average
  -- both sides of the price of the plan are scaled down to the base that is bought
  have scaled : base.value * x * p.base.value ≤
      (base.value * (price.value + slack price.value) + off) * p.base.value := by
    have all := mul_le_mul_of_nonneg_left (worth.trans (add_le_add_left brought off)) nonneg
    have part := mul_le_mul_of_nonneg_right base_le off_nonneg
    linarith
  have cost := le_of_mul_le_mul_right scaled base_pos
  unfold slack at cost
  have spends := h.worth_le price_nonneg (by linarith)
  have less := mul_le_mul_of_nonneg_right h.base_le price_nonneg
  linarith

/-- Repricing costs nothing, or it cuts off the fraction of a cost: what came before one of the
steps, and the rest of the base at the price of the step, but for rounding. -/
theorem repriced_le {steps : List Step} {cost : Decimal} (h : repriced base steps = .ok cost)
    (before : ∀ s ∈ steps, s.baseBefore.value ≤ base.value)
    (nonneg : ∀ s ∈ steps,
      0 ≤ s.baseBefore.value ∧ 0 ≤ s.chainQuoteBefore.value ∧ 0 < s.chainPrice.value) :
    cost = .zero ∨ ∃ s ∈ steps, ∃ total : Decimal, cost = total.trunc ∧ 0 ≤ total.value ∧
      total.value ≤ s.chainQuoteBefore.value +
        (base.value - s.baseBefore.value + slack base.value) * s.chainPrice.value +
          2 * slack total.value := by
  unfold repriced at h
  split at h
  · exact .inl (Except.ok.inj h).symm
  · next s last =>
    have among := List.mem_of_getLast? last
    obtain ⟨start, quoteBefore, price⟩ := nonneg s among
    obtain ⟨rest, difference, h⟩ := bind_eq_ok.mp h
    obtain ⟨part, product, h⟩ := bind_eq_ok.mp h
    obtain ⟨total, sum, h⟩ := bind_eq_ok.mp h
    have rounds := roundsTo_of_minus difference
    have left := sub_nonneg.mpr (before s among)
    have rest_nonneg := rounds.nonneg left
    obtain ⟨more, near, -⟩ := added_near quoteBefore (mul_nonneg rest_nonneg price.le)
      (orAbort_eq_ok.mp product) (orAbort_eq_ok.mp sum)
    have rest_le : rest.value ≤ base.value - s.baseBefore.value + slack base.value :=
      (rounds.near left).1.trans
        (add_le_add_right (slack_mono (rounds.le (sub_le_self _ start))) _)
    have dear := mul_le_mul_of_nonneg_right rest_le price.le
    exact .inr ⟨s, among, total, (Except.ok.inj h).symm, quoteBefore.trans more, by linarith⟩

/-- A base that is bought costs less than a unit more than what is spent, at the price of any step
that the plan brings in for its base and that is dearer than what comes before it. -/
theorem Buys.cost_lt {spent bought cost : Decimal} {s : Step}
    (h : Buys price baseCap quoteCap base spent bought) (average : p.price? = some price)
    (room : p.LeavesRoom) (baseCap_le : baseCap.value ≤ p.base.value)
    (quoteCap_le : quoteCap.value ≤ p.quote.value) (nonneg : 0 ≤ base.value)
    (base_le : base.value ≤ p.base.value) (price_nonneg : 0 ≤ s.chainPrice.value)
    (brings : p.base.value * s.chainPrice.value ≤ p.quote.value +
      p.steps.length * stepSlack s.chainPrice.value p.base.value p.quote.value)
    (before : s.chainQuoteBefore.value ≤ s.baseBefore.value * s.chainPrice.value +
      p.steps.length * stepSlack s.chainPrice.value p.base.value p.quote.value)
    (near : cost.value ≤ s.chainQuoteBefore.value +
      (base.value - s.baseBefore.value + slack base.value) * s.chainPrice.value +
        2 * slack cost.value) : cost.value < spent.value + 1 := by
  obtain ⟨base_pos, quote_pos, -⟩ := price_pos_of_price? average
  have amounts := room.amounts_le base_pos.le quote_pos.le
  have spent_le := h.spent_le.trans quoteCap_le
  have off_nonneg := mul_nonneg (Nat.cast_nonneg (α := ℚ) p.steps.length)
    (stepSlack_nonneg price_nonneg base_pos.le quote_pos.le)
  have off := room.stepSlack_le (h.quarter_le average room baseCap_le quoteCap_le) quote_pos.le
    price_nonneg brings
  have dear := h.base_mul_le average room quoteCap_le nonneg base_le off_nonneg brings
  have less := mul_le_mul_of_nonneg_right (slack_mono base_le) price_nonneg
  have part := mul_nonneg price_nonneg (slack_nonneg base_pos.le)
  have reach : cost.value ≤ spent.value + 3 / 10 + 2 * slack cost.value := by linarith
  rw [slack] at reach
  linarith

/-- A plan that sells at the venue and is funded by a whole amount pays the chain no more than that,
if its amounts leave room for its roundings. -/
theorem buyBack_covered (moderate : u.Moderate) (levels : Direction.venueBid.VenueSorted venue)
    (orders : Direction.venueBid.ChainSorted chain)
    (sized : Plan.size u .venueBid venue chain = .ok plan) (room : plan.LeavesRoom)
    (whole : quoteAvailable.IsWhole) (nonneg : 0 ≤ quoteAvailable.value)
    (funded : plan.fund baseAvailable quoteAvailable = .ok r) : r.chainQuote ≤ quoteAvailable := by
  have consistent := size_consistent sized
  have covered := consistent.fund funded
  rcases covered.base_nonneg.eq_or_lt with nothing | positive
  · rw [le_iff_value, (covered.nothing nothing.symm).1]
    exact nonneg
  obtain ⟨price, spent, bought, average, buys, cost⟩ := buys_of_fund funded positive
  have baseCap_le : (plan.baseCap baseAvailable).value ≤ plan.base.value :=
    (value_baseCap _ _).trans_le (min_le_left _ _)
  have quoteCap_le : (plan.quoteCap quoteAvailable).value ≤ plan.quote.value :=
    (value_quoteCap _ _).trans_le (min_le_left _ _)
  have available : (plan.quoteCap quoteAvailable).value ≤ quoteAvailable.value :=
    (value_quoteCap _ _).trans_le ((min_le_right _ _).trans_eq (max_eq_left nonneg))
  rcases repriced_le cost
    (fun s among => (lt_iff_value.mp (of_decide_eq_true (List.mem_filter.mp among).2)).le)
    (fun s among => consistent.steps_nonneg s (List.mem_filter.mp among).1) with
    free | ⟨s, among, total, truncated, total_nonneg, near⟩
  · rw [free, le_iff_value, value_zero]
    exact nonneg
  have step := (List.mem_filter.mp among).1
  obtain ⟨brings, before⟩ := size_step_price moderate levels orders sized step
  have within := buys.cost_lt average room baseCap_le quoteCap_le positive.le
    (covered.base_le.trans (min_le_left _ _)) (consistent.steps_nonneg s step).2.2.le brings before
    near
  -- less than a unit too much is cut off
  rw [truncated]
  refine (trunc_isWhole total).le_of_lt_add_one whole ((trunc_le total_nonneg).trans_lt ?_)
  linarith [buys.spent_le]

/-- Of thirty units of quote, twenty-two pay for the first of two orders and a quarter of the second,
where rounding has just taken one off. -/
theorem buyBack_covered_of_two_orders :
    let venue : List Venue.Level :=
      [⟨.ofWord 21 1, .ofWord 30 0⟩, ⟨.ofWord 17 1, .ofWord 30 0⟩]
    let chain : List Chain.Order :=
      [.fresh 500000 7 "ask" "maker" (.ofWord 10 0), .fresh 600000 8 "ask" "maker" (.ofWord 20 0)]
    Units.Moderate ⟨6, 6⟩ ∧ Direction.venueBid.VenueSorted venue ∧
      Direction.venueBid.ChainSorted chain ∧
      ∃ plan r, Plan.size ⟨6, 6⟩ .venueBid venue chain = .ok plan ∧ plan.LeavesRoom ∧
        (Decimal.ofWord 30 0).IsWhole ∧ 0 ≤ (Decimal.ofWord 30 0).value ∧
        plan.fund (.ofWord 100 0) (.ofWord 30 0) = .ok r ∧
        r.chainQuote.SameValue (.ofWord 22 0) ∧ r.chainQuote ≤ .ofWord 30 0 := by
  intro venue chain
  have moderate : Units.Moderate ⟨6, 6⟩ := ⟨by decide, by decide, by decide⟩
  have levels : Direction.venueBid.VenueSorted venue := by
    show List.Pairwise _ _
    decide
  have orders : Direction.venueBid.ChainSorted chain := by
    show List.Pairwise _ _
    decide
  have whole : (Decimal.ofWord 30 0).IsWhole := by decide
  have nonneg : 0 ≤ (Decimal.ofWord 30 0).value := by decide +kernel
  obtain ⟨plan, r, sized, funded, room, cost⟩ := exists_both_eq_ok
    (x := Plan.size ⟨6, 6⟩ .venueBid venue chain)
    (f := fun plan => plan.fund (.ofWord 100 0) (.ofWord 30 0))
    (P := fun plan r => plan.LeavesRoom ∧ r.chainQuote.SameValue (.ofWord 22 0))
    (by decide +kernel)
  exact ⟨moderate, levels, orders, plan, r, sized, room, whole, nonneg, funded, cost,
    buyBack_covered moderate levels orders sized room whole nonneg funded⟩

/-- Where human prices have no places left, an order may cross a level it is dearer than, and ten
units of quote buy what the chain sells for fourteen. -/
theorem buyBack_uncovered :
    let venue : List Venue.Level := [⟨.ofWord 1 28, .ofWord 10 0⟩]
    let chain : List Chain.Order := [.fresh 400000 1 "ask" "maker" (.ofWord 10 0)]
    Direction.venueBid.VenueSorted venue ∧ Direction.venueBid.ChainSorted chain ∧
      (Decimal.ofWord 10 0).IsWhole ∧
      ∃ plan r, Plan.size ⟨0, 28⟩ .venueBid venue chain = .ok plan ∧
        plan.fund (.ofWord 10 0) (.ofWord 10 0) = .ok r ∧
        r.chainQuote.SameValue (.ofWord 14 0) ∧ ¬ r.chainQuote ≤ .ofWord 10 0 :=
  ⟨List.pairwise_singleton _ _, List.pairwise_singleton _ _, by decide,
    exists_both_eq_ok (x := Plan.size ⟨0, 28⟩ .venueBid _ _)
      (f := fun plan => plan.fund (.ofWord 10 0) (.ofWord 10 0))
      (P := fun _ r => r.chainQuote.SameValue (.ofWord 14 0) ∧ ¬ r.chainQuote ≤ .ofWord 10 0)
      (by decide +kernel)⟩

end Plan

end CrossBook.Trade
