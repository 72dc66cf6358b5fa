import CrossBook.Proofs.Decimal.Range
import CrossBook.Proofs.Trade.Walk

/-!
# Steps that can be made

The first level and the first order of a walk, with their prices, decide what its next step is. A
match needs nothing but the results of its operations, and these exist for any smaller match: what
the smaller match is worth lies between nothing and what the larger one is worth, rounding included.

## Main results

* `Trade.Walk.Front.step_eq`, `Trade.Walk.Match.step_eq` — the step of a walk, computed
* `Trade.Plan.Extends.exists_smaller` — what can be added to a plan can be added in part
* `Trade.Walk.exists_quoteLeft` — what is left of quote after a match
-/

namespace CrossBook.Trade

open Decimal

namespace Plan

variable {p q : Plan} {matched matched' venuePrice chainPrice proceeds cost : Decimal}

theorem extend_of_extends (h : p.Extends matched venuePrice chainPrice proceeds cost q) :
    p.extend matched venuePrice chainPrice = .ok q := by
  have same : { p with base := q.base, quote := q.quote, chainQuote := q.chainQuote
                       steps := p.steps ++ [⟨p.base, p.chainQuote, chainPrice⟩] } = q := by
    rw [← h.steps_eq, ← h.touches_eq, ← h.direction_eq]
  refine bind_eq_ok.mpr ⟨proceeds, orError_eq_ok.mpr h.proceeds_eq, ?_⟩
  refine bind_eq_ok.mpr ⟨q.quote, orAbort_eq_ok.mpr h.quote_eq, ?_⟩
  refine bind_eq_ok.mpr ⟨q.base, orAbort_eq_ok.mpr h.base_eq, ?_⟩
  refine bind_eq_ok.mpr ⟨cost, orError_eq_ok.mpr h.cost_eq, ?_⟩
  refine bind_eq_ok.mpr ⟨q.chainQuote, orAbort_eq_ok.mpr h.chainQuote_eq, ?_⟩
  exact congrArg Except.ok same

/-- A match of the same base makes the same plan, whatever the scale of the base. -/
theorem Extends.of_sameValue (h : p.Extends matched venuePrice chainPrice proceeds cost q)
    (same : matched'.SameValue matched) :
    p.Extends matched' venuePrice chainPrice proceeds cost q where
  proceeds_eq := (same.mul?_eq venuePrice).trans h.proceeds_eq
  quote_eq := h.quote_eq
  base_eq := (same.add?_eq p.base).trans h.base_eq
  cost_eq := (same.mul?_eq chainPrice).trans h.cost_eq
  chainQuote_eq := h.chainQuote_eq
  direction_eq := h.direction_eq
  steps_eq := h.steps_eq
  touches_eq := h.touches_eq

/-- A part of a product that can be added to an amount can be added to it as well. -/
theorem exists_part_added {amount price part sum : Decimal} (nonneg : 0 ≤ matched'.value)
    (le : matched'.value ≤ matched.value) (product : matched.mul? price = some part)
    (total : amount.add? part = some sum) :
    ∃ part' sum', matched'.mul? price = some part' ∧ amount.add? part' = some sum' := by
  have rounds := roundsTo_of_mul? product
  have summed : Roundable (amount.value + part.value) := ⟨sum, roundsTo_of_add? total⟩
  have smaller : Roundable (matched'.value * price.value) := by
    refine Roundable.of_abs_le ⟨part, rounds⟩ ?_
    rw [abs_mul, abs_mul, abs_of_nonneg nonneg, abs_of_nonneg (nonneg.trans le)]
    exact mul_le_mul_of_nonneg_right le (abs_nonneg _)
  obtain ⟨part', product'⟩ := exists_mul?_iff.mpr smaller
  have rounds' := roundsTo_of_mul? product'
  -- the part is on the same side of zero as the whole
  have between : Roundable (amount.value + part'.value) := by
    rcases le_total 0 price.value with price_nonneg | price_nonpos
    · have part_nonneg := rounds'.nonneg (mul_nonneg nonneg price_nonneg)
      have part_le := rounds'.mono rounds (mul_le_mul_of_nonneg_right le price_nonneg)
      exact (roundable_value amount).between summed (by linarith) (by linarith)
    · have part_nonpos := rounds'.le (d := zero)
        (by rw [value_zero]; exact mul_nonpos_of_nonneg_of_nonpos nonneg price_nonpos)
      have part_ge := rounds.mono rounds' (mul_le_mul_of_nonpos_right le price_nonpos)
      rw [value_zero] at part_nonpos
      exact summed.between (roundable_value amount) (by linarith) (by linarith)
  obtain ⟨sum', total'⟩ := exists_add?_iff.mpr between
  exact ⟨part', sum', product', total'⟩

/-- What can be added to a plan can be added in part. -/
theorem Extends.exists_smaller (h : p.Extends matched venuePrice chainPrice proceeds cost q)
    (nonneg : 0 ≤ matched'.value) (le : matched'.value ≤ matched.value) :
    ∃ proceeds' cost' q', p.Extends matched' venuePrice chainPrice proceeds' cost' q' := by
  obtain ⟨proceeds', quote, proceeds_eq, quote_eq⟩ :=
    exists_part_added nonneg le h.proceeds_eq h.quote_eq
  obtain ⟨cost', chainQuote, cost_eq, chainQuote_eq⟩ :=
    exists_part_added nonneg le h.cost_eq h.chainQuote_eq
  have based : Roundable (p.base.value + matched'.value) :=
    (roundable_value p.base).between ⟨q.base, roundsTo_of_add? h.base_eq⟩ (by linarith)
      (by linarith)
  obtain ⟨base, base_eq⟩ := exists_add?_iff.mpr based
  exact ⟨proceeds', cost', { p with base := base, quote := quote, chainQuote := chainQuote
                                    steps := p.steps ++ [⟨p.base, p.chainQuote, chainPrice⟩] },
    proceeds_eq, quote_eq, base_eq, cost_eq, chainQuote_eq, rfl, rfl, rfl⟩

end Plan

namespace Walk

variable {u : Units} {w next : Walk} {left ofBase matched matched' price r : Decimal}

/-! ### What is left -/

theorem quoteLeft_of_sameValue (h : quoteLeft left ofBase matched price = .ok r)
    (same : matched'.SameValue matched) : quoteLeft left ofBase matched' price = .ok r := by
  have all : matched'.SameValue ofBase ↔ matched.SameValue ofBase := by
    unfold SameValue at same ⊢
    rw [same]
  rw [← h, quoteLeft, quoteLeft, same.mul?_eq]
  exact if_congr all rfl rfl

/-- What is left of quote after a match whose worth is a decimal. -/
theorem exists_quoteLeft (ofBase : Decimal) (left_nonneg : 0 ≤ left.value)
    (price_nonneg : 0 ≤ price.value) (nonneg : 0 ≤ matched.value) {worth : Decimal}
    (product : matched.mul? price = some worth) :
    ∃ r, quoteLeft left ofBase matched price = .ok r := by
  by_cases all : matched.SameValue ofBase
  · refine ⟨zero, ?_⟩
    rw [quoteLeft, if_pos all]
  · have worth_nonneg := (roundsTo_of_mul? product).nonneg (mul_nonneg nonneg price_nonneg)
    obtain ⟨r, difference⟩ := exists_minus left_nonneg worth_nonneg
    refine ⟨r, ?_⟩
    rw [quoteLeft, if_neg all]
    exact bind_eq_ok.mpr ⟨worth, orError_eq_ok.mpr product, orAbort_eq_ok.mpr difference⟩

/-! ### Steps from the front -/

/-- The first level and the first order decide what the next step is. -/
theorem Front.step_eq (f : Front u w) :
    w.step u =
      if ¬ w.plan.direction.Crosses f.human f.level.price then .ok (.finished w.plan)
      else if w.venueLeft ≤ zero then .ok (.more w.passLevel)
      else if w.chainLeft ≤ zero then .ok (.more w.passOrder)
      else (do
        let venuePrice ← u.toChainPrice f.level.price
        let next ← w.matchFirst f.order venuePrice f.chainPrice
        .ok (.more next)) := by
  rw [step, f.venue_eq, f.chain_eq]
  dsimp only
  rw [liftM_eq_ok.mpr f.onSide, ok_bind, liftM_eq_ok.mpr f.price_eq, ok_bind, f.human_eq, ok_bind]

theorem Front.step_apart (f : Front u w) (apart : ¬ f.Crossing) :
    w.step u = .ok (.finished w.plan) := by
  unfold Front.Crossing at apart
  rw [f.step_eq, if_pos apart]

theorem Front.step_passLevel (f : Front u w) (crossing : f.Crossing)
    (exhausted : w.venueLeft.value ≤ 0) : w.step u = .ok (.more w.passLevel) := by
  unfold Front.Crossing at crossing
  have out : w.venueLeft ≤ zero := le_iff_value.mpr (by rwa [value_zero])
  rw [f.step_eq, if_neg (not_not.mpr crossing), if_pos out]

theorem Front.step_passOrder (f : Front u w) (crossing : f.Crossing)
    (held : 0 < w.venueLeft.value) (exhausted : w.chainLeft.value ≤ 0) :
    w.step u = .ok (.more w.passOrder) := by
  unfold Front.Crossing at crossing
  have there : ¬ w.venueLeft ≤ zero := by rwa [le_iff_value, value_zero, not_le]
  have out : w.chainLeft ≤ zero := le_iff_value.mpr (by rwa [value_zero])
  rw [f.step_eq, if_neg (not_not.mpr crossing), if_neg there, if_pos out]

/-- An order is passed only in front of a level that holds something. -/
theorem Front.venueLeft_pos (f : Front u w) (crossing : f.Crossing)
    (step : w.step u = .ok (.more w.passOrder)) : 0 < w.venueLeft.value := by
  by_contra none
  -- otherwise the level would be passed, and there would be fewer of them
  rw [f.step_passLevel crossing (not_lt.mp none)] at step
  have levels := congrArg (fun x : Walk => x.venue.length) (Progress.more.inj (Except.ok.inj step))
  have length : w.venue.length = w.venue.tail.length + 1 := by rw [f.venue_eq]; rfl
  simp only [passLevel, passOrder] at levels
  omega

/-- Where the operations of a match have results, the step is that match. -/
theorem Match.step_eq (m : Match u w next) : w.step u = .ok (.more next) := by
  have crossing := m.crossing
  unfold Front.Crossing at crossing
  have level : ¬ w.venueLeft ≤ zero := by
    rw [le_iff_value, value_zero, not_le]
    exact m.venueLeft_pos
  have order : ¬ w.chainLeft ≤ zero := by
    rw [le_iff_value, value_zero, not_le]
    exact m.chainLeft_pos
  have direction : next.plan.direction = w.plan.direction :=
    m.extended.direction_eq.trans (direction_reached w m.order)
  have same : { w with venueLeft := next.venueLeft, chainLeft := next.chainLeft, touched := true
                       plan := next.plan } = next := by
    rw [← m.venue_same, ← m.chain_same, ← m.touched]
  have made : w.matchFirst m.order m.venuePrice m.chainPrice = .ok next := by
    refine bind_eq_ok.mpr ⟨m.venueBase, m.venueBase_eq, ?_⟩
    refine bind_eq_ok.mpr ⟨m.chainBase, m.chainBase_eq, ?_⟩
    refine bind_eq_ok.mpr ⟨next.plan, Plan.extend_of_extends m.extended, ?_⟩
    have leaves := m.leaves
    unfold Leaves at leaves
    rw [direction]
    cases side : w.plan.direction with
    | chainBid =>
      rw [side] at leaves
      refine bind_eq_ok.mpr ⟨next.venueLeft, leaves.1, ?_⟩
      exact bind_eq_ok.mpr ⟨next.chainLeft, leaves.2, congrArg Except.ok same⟩
    | venueBid =>
      rw [side] at leaves
      refine bind_eq_ok.mpr ⟨next.chainLeft, leaves.1, ?_⟩
      exact bind_eq_ok.mpr ⟨next.venueLeft, leaves.2, congrArg Except.ok same⟩
  rw [m.toFront.step_eq, if_neg (not_not.mpr crossing), if_neg level, if_neg order]
  exact bind_eq_ok.mpr ⟨m.venuePrice, m.venuePrice_eq, bind_eq_ok.mpr ⟨next, made, rfl⟩⟩

theorem step_of_ranOut (h : w.venue = [] ∨ w.chain = []) : w.step u = .ok (.finished w.plan) := by
  rw [step]
  rcases h with venue | chain
  · rw [venue]
  · rw [chain]
    cases w.venue <;> rfl

theorem run_of_finished {plan : Plan} (h : w.step u = .ok (.finished plan)) (fuel : ℕ) :
    w.run u (fuel + 1) = .ok plan := by
  rw [run, h, ok_bind]

theorem run_of_ranOut (h : w.venue = [] ∨ w.chain = []) (fuel : ℕ) : w.run u fuel = .ok w.plan := by
  cases fuel with
  | zero => rfl
  | succ fuel => exact run_of_finished (step_of_ranOut h) fuel

theorem run_of_more (h : w.step u = .ok (.more next)) (fuel : ℕ) :
    w.run u (fuel + 1) = next.run u fuel := by
  rw [run, h, ok_bind]

end Walk

end CrossBook.Trade
