import CrossBook.Proofs.Trade.Walk

/-!
# The margin of a plan

Prices are compared in human units and amounts are added up at chain prices, and each conversion,
product and sum is rounded. Where the human prices of ticks are exact, rounding never turns a match
into a loss.

## Main results

* `Trade.Walk.Match.prices_cross` — the chain prices of a match cross when its human prices do
* `Trade.Plan.size_margin` — a sized plan makes no loss before fees
-/

namespace CrossBook.Trade

open Decimal

namespace Walk

variable {u : Units} {w next : Walk}

/-- The two prices a match is worth cross, since the human price of the tick is exact. -/
theorem Match.prices_cross (moderate : u.Moderate) (m : Match u w next) :
    w.plan.direction.ExactlyCrosses m.chainPrice.value m.venuePrice.value := by
  have crossing := Direction.crosses_iff_value.mp m.crossing
  have scaled := Units.roundsTo_of_toChainPrice m.venuePrice_eq
  have human := Units.value_of_toHumanPrice moderate m.price_eq m.human_eq
  have back : m.chainPrice.value = m.human.value * 10 ^ (-u.gap) := by
    rw [human, mul_assoc, ← zpow_add₀ (by norm_num), add_neg_cancel, zpow_zero, mul_one]
  have exact_cross := (Direction.exactlyCrosses_mul_right_iff
    (by positivity : (0 : ℚ) < 10 ^ (-u.gap))).mpr crossing
  rw [← back] at exact_cross
  -- the venue's price is rounded, but not past the chain's, which is a decimal
  cases side : w.plan.direction with
  | chainBid => rw [side] at exact_cross; exact scaled.le exact_cross
  | venueBid => rw [side] at exact_cross; exact scaled.ge exact_cross

/-- What the walk has bought so far costs no more than what it has sold brings in. -/
def Margin (w : Walk) : Prop :=
  w.plan.direction.ExactlyCrosses w.plan.chainQuote.value w.plan.quote.value

/-- No step of a walk makes a loss. -/
theorem Margin.step (moderate : u.Moderate) (h : w.Margin) (step : Step u w (.more next)) :
    next.Margin := by
  cases step with
  | passLevel f crossing exhausted => exact h
  | passOrder f crossing exhausted => exact h
  | matching m =>
    -- the product is rounded on both sides, and then both sums are
    have quotes : w.plan.direction.ExactlyCrosses m.cost.value m.proceeds.value :=
      ((m.prices_cross moderate).mul_left m.matched_nonneg).rounded
        (roundsTo_of_mul? m.extended.cost_eq) (roundsTo_of_mul? m.extended.proceeds_eq)
    obtain ⟨quoteKept, -, chainQuoteKept⟩ := amounts_reached w m.order
    have chainSum := roundsTo_of_add? m.extended.chainQuote_eq
    have venueSum := roundsTo_of_add? m.extended.quote_eq
    rw [chainQuoteKept] at chainSum
    rw [quoteKept] at venueSum
    rw [Margin, direction_of_step (.matching m)]
    exact (h.add quotes).rounded chainSum venueSum

end Walk

namespace Plan

variable {u : Units} {direction : Direction} {venue : List Venue.Level} {chain : List Chain.Order}
  {plan : Plan}

/-- A sized plan makes no loss before fees, however its amounts were rounded: a purchase at the
venue costs no more than the orders of the chain pay for it, and a sale there brings in no less than
the orders of the chain cost. -/
theorem size_margin (base_le : u.base ≤ 28) (quote_le : u.quote ≤ 28)
    (close : u.quote ≤ u.base + 9) (sized : Plan.size u direction venue chain = .ok plan) :
    (match direction with
      | .chainBid => plan.quote ≤ plan.chainQuote
      | .venueBid => plan.chainQuote ≤ plan.quote) ∧
      zero ≤ plan.base ∧ zero ≤ plan.chainQuote := by
  have consistent := size_consistent sized
  refine ⟨?_, le_iff_value.mpr (by simpa using consistent.base_nonneg),
    le_iff_value.mpr (by simpa using consistent.chainQuote_nonneg)⟩
  obtain ⟨last, margin, rfl⟩ := size_ends (P := Walk.Margin)
    (Walk.Margin.step ⟨base_le, quote_le, close⟩)
    (by cases direction <;> exact le_refl _) sized
  rw [Walk.Margin, size_direction sized] at margin
  cases direction <;> exact le_iff_value.mpr margin

/-- A bid of seventy at a price of three reaches through a quotient that has to be rounded. -/
theorem size_margin_of_two_orders :
    ∃ plan, Plan.size ⟨6, 6⟩ .chainBid
        [⟨.ofWord 15 1, .ofWord 30 0⟩, ⟨.ofWord 17 1, .ofWord 30 0⟩]
        [.fresh 2000000 7 "bid" "maker" (.ofWord 70 0),
          .fresh 800000 8 "bid" "maker" (.ofWord 50 0)] = .ok plan ∧
      6 ≤ 28 ∧ 6 ≤ 6 + 9 ∧ plan.quote ≤ plan.chainQuote ∧ zero ≤ plan.base ∧
        zero ≤ plan.chainQuote ∧ zero < plan.quote := by
  obtain ⟨plan, sized, positive⟩ := exists_eq_ok
    (x := Plan.size ⟨6, 6⟩ .chainBid
      [⟨.ofWord 15 1, .ofWord 30 0⟩, ⟨.ofWord 17 1, .ofWord 30 0⟩]
      [.fresh 2000000 7 "bid" "maker" (.ofWord 70 0),
        .fresh 800000 8 "bid" "maker" (.ofWord 50 0)])
    (P := fun plan => zero < plan.quote) (by decide +kernel)
  obtain ⟨margin, base, cost⟩ := size_margin (u := ⟨6, 6⟩) (by decide) (by decide) (by decide) sized
  exact ⟨plan, sized, by decide, by decide, margin, base, cost, positive⟩

end Plan

end CrossBook.Trade
