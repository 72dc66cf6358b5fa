import CrossBook.Proofs.Decimal.Magnitude
import CrossBook.Proofs.Trade.Funding

/-!
# Sufficient balances

A plan that the balances can pay for is funded all the same: one of its amounts is kept, and the
other is derived from it at the average price. The price was rounded, so the other amount comes back
only where the price gives it back, and else loses a unit and what rounding is worth.

## Main definitions

* `Trade.Plan.Afforded` — the balances can pay for the whole units of a plan
* `Trade.Plan.GivesBack` — the average price gives both amounts back
* `Trade.Plan.Roomy` — there is room for repricing the plan

## Main results

* `Trade.Plan.Afforded.funded` — what comes of a plan that the balances can pay for
* `Trade.Plan.fund_sufficient` — when it is left alone, and what it loses at most
-/

namespace CrossBook.Trade

open Decimal

namespace Plan

variable {p r : Plan} {price base quote baseAvailable quoteAvailable : Decimal}

/-- The plan is in whole units of both assets, and the balances can pay for it. -/
structure Afforded (p : Plan) (baseAvailable quoteAvailable : Decimal) : Prop where
  base_whole : p.base.IsWhole
  quote_whole : p.quote.IsWhole
  base_pos : 0 < p.base.value
  quote_pos : 0 < p.quote.value
  base_le : p.base ≤ baseAvailable
  quote_le : p.quote ≤ quoteAvailable

theorem afforded_iff : p.Afforded baseAvailable quoteAvailable ↔
    (p.base.IsWhole ∧ p.quote.IsWhole) ∧ (0 < p.base.value ∧ 0 < p.quote.value) ∧
      p.base ≤ baseAvailable ∧ p.quote ≤ quoteAvailable :=
  ⟨fun h => ⟨⟨h.base_whole, h.quote_whole⟩, ⟨h.base_pos, h.quote_pos⟩, h.base_le, h.quote_le⟩,
    fun h => ⟨h.1.1, h.1.2, h.2.1.1, h.2.1.2, h.2.2.1, h.2.2.2⟩⟩

instance : Decidable (p.Afforded baseAvailable quoteAvailable) :=
  decidable_of_iff _ afforded_iff.symm

/-- The average price gives both amounts back: the quote buys the base at it, and the base is worth
the quote. -/
def GivesBack (p : Plan) : Prop :=
  ∃ price bought worth, p.price? = some price ∧ p.quote.div? price = some bought ∧
    p.base ≤ bought ∧ p.base.mul? price = some worth ∧ p.quote ≤ worth

/-! ### The average price -/

theorem Afforded.exists_price (h : p.Afforded baseAvailable quoteAvailable) :
    ∃ price, p.price? = some price ∧ RoundsTo (p.quote.value / p.base.value) price := by
  have base_pos := h.base_pos
  have quote_pos := h.quote_pos
  -- a unit of base or more cannot make the price larger than the quote is
  have small : p.quote.value / p.base.value ≤ maxCoefficient :=
    (div_le_self quote_pos.le (h.base_whole.one_le base_pos)).trans p.quote.value_le_maxCoefficient
  obtain ⟨price, quotient⟩ := exists_div? base_pos
    (by rwa [abs_of_pos (div_pos quote_pos base_pos)])
  refine ⟨price, ?_, roundsTo_of_div? quotient⟩
  rwa [price?, if_neg]
  rw [isEmpty_iff, not_or, not_le, not_le]
  exact ⟨base_pos, quote_pos⟩

theorem clamp_eq_self {amount available : Decimal} (h : amount ≤ available) :
    clamp amount (available.max .zero) = amount := by
  refine if_pos (le_iff_value.mpr ?_)
  rw [value_max]
  exact (le_iff_value.mp h).trans (le_max_left _ _)

/-- Neither amount is capped. -/
theorem Afforded.fund_eq (h : p.Afforded baseAvailable quoteAvailable)
    (found : p.price? = some price) :
    p.fund baseAvailable quoteAvailable =
      p.resize ((capped price p.base p.quote).1.min p.base)
        ((capped price p.base p.quote).2.min p.quote) := by
  unfold fund
  rw [found]
  dsimp only
  rw [clamp_eq_self h.base_le, clamp_eq_self h.quote_le]

theorem worth_nonneg (found : p.price? = some price) : 0 ≤ (orZero (p.base.mul? price)).value := by
  obtain ⟨base_pos, -, price_nonneg⟩ := price_pos_of_price? found
  exact orZero_nonneg fun a product => (roundsTo_of_mul? product).nonneg
    (mul_nonneg base_pos.le price_nonneg)

theorem bought_nonneg (found : p.price? = some price) :
    0 ≤ (orZero (p.quote.div? price)).value := by
  obtain ⟨-, quote_pos, price_nonneg⟩ := price_pos_of_price? found
  exact orZero_nonneg fun a quotient => (roundsTo_of_div? quotient).nonneg
    (div_nonneg quote_pos.le price_nonneg)

/-- What is left of both amounts: either the quote is kept and buys less than the base, or the base
is kept and is worth what the quote is cut down to. -/
theorem Afforded.funded (h : p.Afforded baseAvailable quoteAvailable)
    (found : p.price? = some price) :
    ∃ base quote, p.fund baseAvailable quoteAvailable = p.resize base quote ∧
      ((orZero (p.quote.div? price)).value < p.base.value ∧
          base.value = (orZero (p.quote.div? price)).trunc.value ∧ quote.value = p.quote.value ∨
        p.base.value ≤ (orZero (p.quote.div? price)).value ∧ base.value = p.base.value ∧
          quote.value = Min.min (orZero (p.base.mul? price)).trunc.value p.quote.value) := by
  refine ⟨_, _, h.fund_eq found, ?_⟩
  have base_whole := h.base_whole
  have quote_whole := h.quote_whole
  -- truncating the amount that is kept changes nothing
  unfold capped
  split_ifs with less
  · left
    dsimp only
    rw [(isWhole_iff.mp quote_whole).div?_eq, value_min, value_min, quote_whole.trunc_value,
      min_self]
    refine ⟨lt_iff_value.mp less, min_eq_left ?_, rfl⟩
    exact (trunc_le (bought_nonneg found)).trans (lt_iff_value.mp less).le
  · right
    dsimp only
    rw [(isWhole_iff.mp base_whole).mul?_eq, value_min, value_min, base_whole.trunc_value, min_self]
    exact ⟨le_of_not_gt fun less' => less (lt_iff_value.mpr less'), rfl, rfl⟩

/-! ### Amounts that come back -/

theorem orZero_eq_some {d : Option Decimal} (h : 0 < (orZero d).value) : d = some (orZero d) := by
  cases d with
  | none => simp [orZero] at h
  | some a => rfl

theorem le_trunc_iff {a b : Decimal} (whole : a.IsWhole) (nonneg : 0 ≤ b.value) :
    a.value ≤ b.trunc.value ↔ a.value ≤ b.value := by
  obtain ⟨n, value⟩ := whole
  rw [trunc_value_of_nonneg nonneg, value, Int.cast_le]
  exact Int.le_floor

theorem givesBack_iff (found : p.price? = some price) : p.GivesBack ↔
    p.base.value ≤ (orZero (p.quote.div? price)).value ∧
      p.quote.value ≤ (orZero (p.base.mul? price)).value := by
  constructor
  · rintro ⟨price', bought, worth, found', quotient, base_le, product, quote_le⟩
    obtain rfl := Option.some.inj (found.symm.trans found')
    rw [quotient, product]
    exact ⟨le_iff_value.mp base_le, le_iff_value.mp quote_le⟩
  · rintro ⟨base_le, quote_le⟩
    obtain ⟨base_pos, quote_pos, -⟩ := price_pos_of_price? found
    exact ⟨price, _, _, found, orZero_eq_some (base_pos.trans_le base_le), le_iff_value.mpr base_le,
      orZero_eq_some (quote_pos.trans_le quote_le), le_iff_value.mpr quote_le⟩

/-- A funded plan that the balances could pay for has neither more base nor more quote than before,
and as much of one of them. It has as much of both where the average price gives both back. -/
theorem Afforded.amounts (h : p.Afforded baseAvailable quoteAvailable)
    (funded : p.fund baseAvailable quoteAvailable = .ok r) :
    (r.base ≤ p.base ∧ r.quote ≤ p.quote) ∧ (r.base.SameValue p.base ∨ r.quote.SameValue p.quote) ∧
      (r.base.SameValue p.base ∧ r.quote.SameValue p.quote ↔ p.GivesBack) := by
  obtain ⟨price, found, -⟩ := h.exists_price
  obtain ⟨base, quote, resized, amounts⟩ := h.funded found
  obtain ⟨rfl, rfl⟩ := amounts_of_resize (resized.symm.trans funded)
  rw [givesBack_iff found, sameValue_iff_value, sameValue_iff_value, le_iff_value, le_iff_value]
  rcases amounts with ⟨less, base, quote⟩ | ⟨enough, base, quote⟩
  · -- less base is bought than there was, so the price does not give it back
    have base_lt : r.base.value < p.base.value :=
      (base.trans_le (trunc_le (bought_nonneg found))).trans_lt less
    exact ⟨⟨base_lt.le, quote.le⟩, .inr quote, iff_of_false (fun same => base_lt.ne same.1)
      fun back => absurd less (not_lt.mpr back.1)⟩
  · -- the base is kept, and the whole units it is worth reach the quote when all it is worth does
    refine ⟨⟨base.le, quote.trans_le (min_le_right _ _)⟩, .inl base, ?_⟩
    rw [quote, min_eq_right_iff, le_trunc_iff h.quote_whole (worth_nonneg found),
      and_iff_right base, and_iff_right enough]

/-- A price that is exact gives both amounts back. -/
theorem Afforded.givesBack_of_exact (h : p.Afforded baseAvailable quoteAvailable)
    (found : p.price? = some price) (exact : price.value * p.base.value = p.quote.value) :
    p.GivesBack := by
  have price_pos : 0 < price.value := pos_of_mul_pos_left (exact ▸ h.quote_pos) h.base_pos.le
  have quotient : p.quote.value / price.value = p.base.value := by
    rw [← exact, mul_div_cancel_left₀ _ price_pos.ne']
  have product : p.base.value * price.value = p.quote.value := by rw [mul_comm, exact]
  obtain ⟨bought, bought_eq⟩ := exists_div? (a := p.quote) price_pos
    (quotient ▸ p.base.abs_value_le_maxCoefficient)
  obtain ⟨worth, worth_eq⟩ := exists_mul? (a := p.base) (b := price)
    (product ▸ p.quote.abs_value_le_maxCoefficient)
  refine ⟨price, bought, worth, found, bought_eq, ?_, worth_eq, ?_⟩
  · exact le_iff_value.mpr ((roundsTo_of_div? bought_eq).ge quotient.ge)
  · exact le_iff_value.mpr ((roundsTo_of_mul? worth_eq).ge product.ge)

/-! ### Amounts that are lost -/

/-- There is room for repricing: none of the amounts is above half of the largest decimal, and
neither is the base at any of the prices of the steps. -/
structure Roomy (p : Plan) : Prop where
  base_le : p.base.value ≤ (maxCoefficient / 2 : ℕ)
  quote_le : p.quote.value ≤ (maxCoefficient / 2 : ℕ)
  chainQuote_le : p.chainQuote.value ≤ (maxCoefficient / 2 : ℕ)
  cost_le : ∀ s ∈ p.steps, p.base.value * s.chainPrice.value ≤ (maxCoefficient / 2 : ℕ)

theorem roomy_iff : p.Roomy ↔
    (p.base.value ≤ (maxCoefficient / 2 : ℕ) ∧ p.quote.value ≤ (maxCoefficient / 2 : ℕ) ∧
      p.chainQuote.value ≤ (maxCoefficient / 2 : ℕ)) ∧
      ∀ s ∈ p.steps, p.base.value * s.chainPrice.value ≤ (maxCoefficient / 2 : ℕ) :=
  ⟨fun h => ⟨⟨h.base_le, h.quote_le, h.chainQuote_le⟩, h.cost_le⟩,
    fun h => ⟨h.1.1, h.1.2.1, h.1.2.2, h.2⟩⟩

instance : Decidable p.Roomy := decidable_of_iff _ roomy_iff.symm

theorem half_add_half_le :
    ((maxCoefficient / 2 : ℕ) : ℚ) + (maxCoefficient / 2 : ℕ) ≤ maxCoefficient := by
  exact_mod_cast (by decide : maxCoefficient / 2 + maxCoefficient / 2 ≤ maxCoefficient)

/-- A price near a quotient gives the divided amount back, but for its rounding. -/
theorem mul_price_near {b q x : ℚ} (positive : 0 < b) (above : x ≤ q / b + slack x)
    (below : q / b ≤ x + slack x) :
    x * b ≤ q + (b + x * b) / 10 ^ 28 ∧ q ≤ x * b + (b + x * b) / 10 ^ 28 := by
  have share : slack x * b = (b + x * b) / 10 ^ 28 := by rw [slack]; ring
  rw [← share, ← add_mul]
  constructor
  · have := mul_le_mul_of_nonneg_right above positive.le
    rwa [add_mul, div_mul_cancel₀ _ positive.ne'] at this
  · rwa [div_le_iff₀ positive] at below

/-- It gives the divisor back as well, unless the quotient is as small as rounding goes. -/
theorem div_price_near {b q x : ℚ} (positive : 0 < b) (quote_pos : 0 < q)
    (above : x ≤ q / b + slack x) (below : q / b ≤ x + slack x) :
    q < 4 * b / 10 ^ 28 ∨
      0 < x ∧ q / x ≤ 2 * b ∧ b ≤ q / x + (b + 2 * (b ^ 2 / q)) / 10 ^ 28 := by
  obtain ⟨above, below⟩ := mul_price_near positive above below
  -- a price that has lost half of the quotient is of the size of its own rounding
  rcases lt_or_ge (2 * (x * b)) q with less | ge
  · left
    linarith
  · right
    have price_pos : 0 < x := pos_of_mul_pos_left (by linarith) positive.le
    refine ⟨price_pos, by rw [div_le_iff₀ price_pos]; linarith, ?_⟩
    have inverse : b / x ≤ 2 * (b ^ 2 / q) := by
      rw [← mul_div_assoc, div_le_div_iff₀ price_pos quote_pos]
      nlinarith
    calc b = x * b / x := (mul_div_cancel_left₀ _ price_pos.ne').symm
      _ ≤ (q + (b + x * b) / 10 ^ 28) / x := div_le_div_of_nonneg_right above price_pos.le
      _ = q / x + (b + b / x) / 10 ^ 28 := by field_simp; ring
      _ ≤ q / x + (b + 2 * (b ^ 2 / q)) / 10 ^ 28 := by gcongr

/-- The base that the quote buys at the average price is short of the base by what rounding the
price and the quotient is worth. -/
theorem Afforded.base_lost_le (h : p.Afforded baseAvailable quoteAvailable) (roomy : p.Roomy)
    (found : p.price? = some price) (rounds : RoundsTo (p.quote.value / p.base.value) price) :
    p.base.value - (orZero (p.quote.div? price)).value ≤
      4 * (1 + p.base.value + p.base.value ^ 2 / p.quote.value) / 10 ^ 28 := by
  have base_pos := h.base_pos
  have quote_pos := h.quote_pos
  have bought_nonneg := bought_nonneg found
  obtain ⟨above, below⟩ := rounds.near (div_pos quote_pos base_pos).le
  have ratio_nonneg : 0 ≤ p.base.value ^ 2 / p.quote.value := by positivity
  rcases div_price_near base_pos quote_pos above below with tiny | ⟨price_pos, small, near⟩
  · -- all of the base is less than what the rounding of such a price is worth
    have large : p.base.value ≤ 4 * (p.base.value ^ 2 / p.quote.value) / 10 ^ 28 := by
      rw [← mul_div_assoc, div_div, le_div_iff₀ (by positivity)]
      nlinarith
    linarith
  · obtain ⟨bought, quotient⟩ := exists_div? (a := p.quote) price_pos
      (by rw [abs_of_nonneg (div_nonneg quote_pos.le price_pos.le)]
          linarith [roomy.base_le, half_add_half_le])
    rw [quotient, orZero, Option.getD_some]
    rcases le_or_gt p.base.value bought.value with enough | less
    · linarith [show 0 ≤ 4 * (1 + p.base.value + p.base.value ^ 2 / p.quote.value) / 10 ^ 28 by
        positivity]
    · have rounded :=
        ((roundsTo_of_div? quotient).near (div_nonneg quote_pos.le price_pos.le)).2
      have := slack_mono less.le
      unfold slack at this rounded
      linarith

/-- What the base is worth at the average price is short of the quote by what rounding the price and
the product is worth. -/
theorem Afforded.quote_lost_le (h : p.Afforded baseAvailable quoteAvailable) (roomy : p.Roomy)
    (found : p.price? = some price) (rounds : RoundsTo (p.quote.value / p.base.value) price) :
    p.quote.value - (orZero (p.base.mul? price)).value ≤
      4 * (1 + p.base.value + p.quote.value) / 10 ^ 28 := by
  have base_pos := h.base_pos
  have quote_pos := h.quote_pos
  have price_nonneg := (price_pos_of_price? found).2.2
  have base_le := roomy.base_le
  have quote_le := roomy.quote_le
  have halves := half_add_half_le
  obtain ⟨above, below⟩ := rounds.near (div_pos quote_pos base_pos).le
  obtain ⟨above, below⟩ := mul_price_near base_pos above below
  have product_nonneg : 0 ≤ p.base.value * price.value := mul_nonneg base_pos.le price_nonneg
  rw [mul_comm price.value] at above below
  obtain ⟨worth, product⟩ := exists_mul? (a := p.base) (b := price)
    (by rw [abs_of_nonneg product_nonneg]; linarith)
  rw [product, orZero, Option.getD_some]
  rcases le_or_gt p.quote.value worth.value with enough | less
  · linarith [show 0 ≤ 4 * (1 + p.base.value + p.quote.value) / 10 ^ 28 by positivity]
  · have rounded := ((roundsTo_of_mul? product).near product_nonneg).2
    have := slack_mono less.le
    unfold slack at this rounded
    linarith

/-! ### Repricing -/

variable {u : Units} {direction : Direction} {venue : List Venue.Level} {chain : List Chain.Order}

/-- Before each step the plan had no more quote on the chain than it has now. -/
def Grown (p : Plan) : Prop := ∀ s ∈ p.steps, s.chainQuoteBefore.value ≤ p.chainQuote.value

theorem Grown.step {w next : Walk} (h : w.plan.Grown) (step : Walk.Step u w (.more next)) :
    next.plan.Grown := by
  cases step with
  | passLevel f crossing exhausted => exact h
  | passOrder f crossing exhausted => exact h
  | matching m =>
    have cost_nonneg := (roundsTo_of_mul? m.extended.cost_eq).nonneg
      (mul_nonneg m.matched_nonneg m.chainPrice_pos.le)
    have grows := (roundsTo_of_add? m.extended.chainQuote_eq).ge
      (le_add_of_nonneg_right cost_nonneg)
    rw [(Walk.amounts_reached w m.order).2.2] at grows
    rw [Grown, m.extended.steps_eq, Walk.steps_reached, (Walk.amounts_reached w m.order).2.2]
    intro s among
    rcases List.mem_append.mp among with earlier | last
    · exact (h s earlier).trans grows
    · obtain rfl := List.mem_singleton.mp last
      exact grows

theorem size_grown (sized : size u direction venue chain = .ok p) : p.Grown := by
  obtain ⟨last, grown, rfl⟩ := size_ends (P := fun w => w.plan.Grown) Grown.step
    (by simp [Grown, Walk.start, empty]) sized
  exact grown

/-- Where there is room, a plan can be cut down to any less base. -/
theorem Roomy.exists_resize (roomy : p.Roomy) (consistent : p.Consistent)
    (grown : p.Grown) (nonneg : 0 ≤ base.value) (le : base.value ≤ p.base.value) :
    ∃ r, p.resize base quote = .ok r := by
  obtain ⟨cost, repriced⟩ :
      ∃ cost, repriced base (p.steps.filter fun s => s.baseBefore < base) = .ok cost := by
    unfold repriced
    split
    · exact ⟨_, rfl⟩
    · next s last =>
      obtain ⟨among, begun⟩ := List.mem_filter.mp (List.mem_of_getLast? last)
      obtain ⟨baseBefore, quoteBefore, price_pos⟩ := consistent.steps_nonneg s among
      have begun := lt_iff_value.mp (of_decide_eq_true begun)
      obtain ⟨rest, difference⟩ := exists_minus nonneg baseBefore
      have rounds := roundsTo_of_sub? difference
      have rest_nonneg := rounds.nonneg (sub_nonneg.mpr begun.le)
      have rest_le := (rounds.le (sub_le_self _ baseBefore)).trans le
      -- what is left costs no more than all of the base would
      have cost_le : |rest.value * s.chainPrice.value| ≤ (maxCoefficient / 2 : ℕ) := by
        rw [abs_of_nonneg (mul_nonneg rest_nonneg price_pos.le)]
        exact (mul_le_mul_of_nonneg_right rest_le price_pos.le).trans (roomy.cost_le s among)
      obtain ⟨cost, product⟩ := exists_mul?
        (cost_le.trans (by exact_mod_cast (by decide : maxCoefficient / 2 ≤ maxCoefficient)))
      have cost_bound := (roundsTo_of_mul? product).abs_value_le cost_le
      have before_le := (grown s among).trans roomy.chainQuote_le
      obtain ⟨total, sum⟩ := exists_add? (a := s.chainQuoteBefore) (b := cost)
        ((abs_add_le _ _).trans ((add_le_add ((abs_of_nonneg quoteBefore).trans_le before_le)
          cost_bound).trans half_add_half_le))
      exact ⟨total.trunc, bind_eq_ok.mpr ⟨rest, orAbort_eq_ok.mpr difference,
        bind_eq_ok.mpr ⟨cost, orAbort_eq_ok.mpr product,
          bind_eq_ok.mpr ⟨total, orAbort_eq_ok.mpr sum, rfl⟩⟩⟩⟩
  exact ⟨_, bind_eq_ok.mpr ⟨cost, repriced, rfl⟩⟩

/-! ### Funding -/

/-- A sized plan of whole units that the balances can pay for keeps one of its amounts and loses at
most a unit of the other, besides what rounding the average price is worth. It keeps both where the
average price gives both back, as an exact one does. -/
theorem fund_sufficient (sized : size u direction venue chain = .ok p)
    (afforded : p.Afforded baseAvailable quoteAvailable) :
    (∀ r, p.fund baseAvailable quoteAvailable = .ok r →
        (r.base ≤ p.base ∧ r.quote ≤ p.quote) ∧
        (r.base.SameValue p.base ∨ r.quote.SameValue p.quote) ∧
        (r.base.SameValue p.base ∧ r.quote.SameValue p.quote ↔ p.GivesBack)) ∧
      (∀ price ∈ p.price?, price.value * p.base.value = p.quote.value → p.GivesBack) ∧
      (p.Roomy → ∃ r, p.fund baseAvailable quoteAvailable = .ok r ∧
        p.base.value - r.base.value ≤
          1 + 4 * (1 + p.base.value + p.base.value ^ 2 / p.quote.value) / 10 ^ 28 ∧
        p.quote.value - r.quote.value ≤ 1 + 4 * (1 + p.base.value + p.quote.value) / 10 ^ 28) := by
  refine ⟨fun r => afforded.amounts, fun price => afforded.givesBack_of_exact, fun roomy => ?_⟩
  obtain ⟨price, found, rounds⟩ := afforded.exists_price
  obtain ⟨base, quote, resized, amounts⟩ := afforded.funded found
  have base_lost := afforded.base_lost_le roomy found rounds
  have quote_lost := afforded.quote_lost_le roomy found rounds
  have bought_nonneg := bought_nonneg found
  have base_bounds : 0 ≤ base.value ∧ base.value ≤ p.base.value := by
    rcases amounts with ⟨less, same, -⟩ | ⟨-, same, -⟩
    · rw [same]
      exact ⟨trunc_nonneg bought_nonneg, (trunc_le bought_nonneg).trans less.le⟩
    · rw [same]
      exact ⟨afforded.base_pos.le, le_refl _⟩
  obtain ⟨r, result⟩ := roomy.exists_resize (size_consistent sized) (size_grown sized)
    base_bounds.1 base_bounds.2
  refine ⟨r, resized.trans result, ?_⟩
  obtain ⟨rfl, rfl⟩ := amounts_of_resize result
  have base_nonneg := afforded.base_pos.le
  have quote_pos := afforded.quote_pos
  rcases amounts with ⟨less, base, quote⟩ | ⟨enough, base, quote⟩
  · -- the whole units of what is bought are less than a unit short of it
    have whole := lt_trunc_add_one bought_nonneg
    rw [base, quote, sub_self]
    exact ⟨by linarith, by positivity⟩
  · have whole := lt_trunc_add_one (worth_nonneg found)
    rw [base, quote, sub_self]
    refine ⟨by positivity, ?_⟩
    rcases min_choice (orZero (p.base.mul? price)).trunc.value p.quote.value with least | least
    · rw [least]
      linarith
    · rw [least, sub_self]
      positivity

/-- Two levels at different prices come to five units of base for four of quote, whose average price
is exact. -/
theorem fund_sufficient_of_two_levels :
    ∃ plan r, Plan.size ⟨6, 6⟩ .chainBid
        [⟨.ofWord 5 1, .ofWord 2 0⟩, ⟨.one, .ofWord 3 0⟩]
        [.fresh 1000000 1 "bid" "maker" (.ofWord 10 0)] = .ok plan ∧
      plan.Afforded (.ofWord 5 0) (.ofWord 4 0) ∧ plan.Roomy ∧
      plan.fund (.ofWord 5 0) (.ofWord 4 0) = .ok r ∧
      r.base.SameValue plan.base ∧ r.quote.SameValue plan.quote := by
  obtain ⟨plan, sized, afforded, roomy, price, found, exact⟩ := exists_eq_ok
    (x := Plan.size ⟨6, 6⟩ .chainBid [⟨.ofWord 5 1, .ofWord 2 0⟩, ⟨.one, .ofWord 3 0⟩]
      [.fresh 1000000 1 "bid" "maker" (.ofWord 10 0)])
    (P := fun plan => plan.Afforded (.ofWord 5 0) (.ofWord 4 0) ∧ plan.Roomy ∧
      ∃ price ∈ plan.price?, price.value * plan.base.value = plan.quote.value)
    (by decide +kernel)
  obtain ⟨unchanged, givesBack, comes⟩ := fund_sufficient sized afforded
  obtain ⟨r, funded, -⟩ := comes roomy
  obtain ⟨-, -, same⟩ := unchanged r funded
  have both := same.mpr (givesBack price found exact)
  exact ⟨plan, r, sized, afforded, roomy, funded, both.1, both.2⟩

/-- Three units of base for one of quote are worth less than one at the rounded average price, so
nothing is left of the quote. -/
theorem fund_insufficient :
    ∃ plan r, Plan.size ⟨6, 6⟩ .chainBid
        [⟨.ofWord 25 2, .ofWord 2 0⟩, ⟨.ofWord 5 1, .one⟩]
        [.fresh 0 1 "bid" "maker" (.ofWord 5 0)] = .ok plan ∧
      plan.fund (.ofWord 10 0) (.ofWord 10 0) = .ok r ∧
      plan.Afforded (.ofWord 10 0) (.ofWord 10 0) ∧ plan.base.SameValue (.ofWord 3 0) ∧
      plan.quote.SameValue .one ∧ r.base.SameValue (.ofWord 3 0) ∧ r.quote.SameValue .zero :=
  exists_both_eq_ok (x := Plan.size ⟨6, 6⟩ .chainBid _ _)
    (f := fun plan => plan.fund (.ofWord 10 0) (.ofWord 10 0)) (by decide +kernel)

end Plan

end CrossBook.Trade
