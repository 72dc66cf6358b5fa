import CrossBook.Proofs.Decimal.Range
import CrossBook.Proofs.Trade.Costs

/-!
# Better simulations

A swap that is expected to bring more, or to take less gas, is judged no worse. Every amount between
a simulation and its assessment is rounded, truncated or rounded up, and all of these keep order,
also below zero. The venue's fee does not depend on the simulation.

## Main definitions

* `Trade.Assessment.NoWorse` — one assessment is as good as another in everything

## Main results

* `Trade.CostModel.minOut_mono`, `profit_mono` — what is earned grows with the expected output
* `Trade.CostModel.gasLimit_mono`, `gasCost_mono` — what is paid for gas grows with the estimate
* `Trade.CostModel.assess_mono` — a better simulation never makes an assessment worse
-/

namespace CrossBook.Trade

open Decimal

/-- The second assessment is as good as the first in everything: it earns as much and accepts no
less output, sends no more gas and costs no more, and it is profitable when the first is. -/
structure Assessment.NoWorse (a a' : Assessment) : Prop where
  profit : a.profit ≤ a'.profit
  minOut : a.minOut ≤ a'.minOut
  gasLimit : a'.gasLimit ≤ a.gasLimit
  cost : ∀ cost, a.cost = .ok cost → ∃ cost', a'.cost = .ok cost' ∧ cost' ≤ cost
  isProfitable : a.isProfitable = .ok true → a'.isProfitable = .ok true

namespace CostModel

variable {m : CostModel} {u : Units} {p : Plan} {s s' : SwapSimulation} {prices : PriceSheet}
  {a a' : Assessment}

/-! ### What is earned -/

theorem minOut_mono {out out' : Decimal} (tolerance : m.slippageTolerance ≤ one)
    (more : s.expectedOut ≤ s'.expectedOut) (h : m.minOut s = .ok out)
    (h' : m.minOut s' = .ok out') : out ≤ out' := by
  obtain ⟨share, rest, h⟩ := bind_eq_ok.mp h
  obtain ⟨_, same, h'⟩ := bind_eq_ok.mp h'
  obtain rfl := Except.ok.inj (same.symm.trans rest)
  obtain ⟨kept, product, h⟩ := bind_eq_ok.mp h
  obtain ⟨kept', product', h'⟩ := bind_eq_ok.mp h'
  obtain rfl := Except.ok.inj h
  obtain rfl := Except.ok.inj h'
  rw [le_iff_value] at tolerance more ⊢
  have share_nonneg := (roundsTo_of_minus rest).nonneg (sub_nonneg.mpr tolerance)
  apply trunc_mono
  apply (roundsTo_of_mul? (orError_eq_ok.mp product)).mono
    (roundsTo_of_mul? (orError_eq_ok.mp product'))
  exact mul_le_mul_of_nonneg_right more share_nonneg

/-- The human worth of what is left of an output after an amount grows with the output. -/
theorem worth_mono {out out' amount left left' human human' price worth worth' : Decimal}
    {decimals : Nat} (more : out ≤ out') (price_nonneg : zero ≤ price)
    (rest : out.minus amount = .ok left) (rest' : out'.minus amount = .ok left')
    (converted : Amount.toHuman left decimals = .ok human)
    (converted' : Amount.toHuman left' decimals = .ok human')
    (h : human.times price = .ok worth) (h' : human'.times price = .ok worth') :
    worth ≤ worth' := by
  rw [le_iff_value] at more price_nonneg ⊢
  rw [value_zero] at price_nonneg
  have lefts : left.value ≤ left'.value := by
    apply (roundsTo_of_minus rest).mono (roundsTo_of_minus rest')
    exact sub_le_sub_right more amount.value
  have humans := Amount.toHuman_mono converted converted' lefts
  apply (roundsTo_of_times h).mono (roundsTo_of_times h')
  exact mul_le_mul_of_nonneg_right humans price_nonneg

theorem profit_mono {out out' earned earned' : Decimal} (prices_nonneg : prices.Nonneg)
    (more : out ≤ out') (h : profit u p prices out = .ok earned)
    (h' : profit u p prices out' = .ok earned') : earned ≤ earned' := by
  unfold profit at h h'
  cases direction : p.direction with
  | chainBid =>
    rw [direction] at h h'
    obtain ⟨gain, rest, h⟩ := bind_eq_ok.mp h
    obtain ⟨human, converted, h⟩ := bind_eq_ok.mp h
    obtain ⟨gain', rest', h'⟩ := bind_eq_ok.mp h'
    obtain ⟨human', converted', h'⟩ := bind_eq_ok.mp h'
    exact worth_mono more prices_nonneg.quote rest rest' converted converted' h h'
  | venueBid =>
    rw [direction] at h h'
    obtain ⟨kept, earlier, h⟩ := bind_eq_ok.mp h
    obtain ⟨spread, spread_eq, h⟩ := bind_eq_ok.mp h
    obtain ⟨surplus, rest, h⟩ := bind_eq_ok.mp h
    obtain ⟨drift, converted, h⟩ := bind_eq_ok.mp h
    obtain ⟨spreadValue, spreadValue_eq, h⟩ := bind_eq_ok.mp h
    obtain ⟨driftValue, driftValue_eq, h⟩ := bind_eq_ok.mp h
    -- the spread was earned before the output came in, so both runs agree on it
    rw [earlier, ok_bind, spread_eq, ok_bind] at h'
    obtain ⟨surplus', rest', h'⟩ := bind_eq_ok.mp h'
    obtain ⟨drift', converted', h'⟩ := bind_eq_ok.mp h'
    rw [spreadValue_eq, ok_bind] at h'
    obtain ⟨driftValue', driftValue_eq', h'⟩ := bind_eq_ok.mp h'
    have drifts := worth_mono more prices_nonneg.base rest rest' converted converted'
      driftValue_eq driftValue_eq'
    rw [le_iff_value] at drifts ⊢
    apply (roundsTo_of_plus h).mono (roundsTo_of_plus h')
    exact add_le_add_right drifts spreadValue.value

/-! ### What is paid -/

theorem gasLimit_mono {limit limit' : UInt64} (adjustment : zero ≤ m.gasAdjustment)
    (less : s'.gasEstimate ≤ s.gasEstimate) (h : m.gasLimit s = .ok limit)
    (h' : m.gasLimit s' = .ok limit') : limit' ≤ limit := by
  obtain ⟨adjusted, product, ceiling⟩ := gasLimit_eq_ok h
  obtain ⟨adjusted', product', ceiling'⟩ := gasLimit_eq_ok h'
  rw [le_iff_value, value_zero] at adjustment
  rw [UInt64.le_iff_toNat_le] at less ⊢
  have estimates : (s'.gasEstimate.toNat : ℚ) ≤ s.gasEstimate.toNat := by exact_mod_cast less
  have adjusted_le : adjusted'.value ≤ adjusted.value :=
    product'.mono product (mul_le_mul_of_nonneg_right estimates adjustment)
  have limits : (limit'.toNat : ℤ) ≤ limit.toNat := by
    rw [ceiling, ceiling']
    exact Int.ceil_mono adjusted_le
  exact_mod_cast limits

theorem gasCost_mono {limit limit' : UInt64} {cost cost' : Decimal} (prices_nonneg : prices.Nonneg)
    (gasPrice : zero ≤ m.gasPrice) (fewer : limit' ≤ limit)
    (h : m.gasCost prices limit = .ok cost) (h' : m.gasCost prices limit' = .ok cost') :
    cost' ≤ cost := by
  obtain ⟨fee, native, h⟩ := bind_eq_ok.mp h
  obtain ⟨human, converted, h⟩ := bind_eq_ok.mp h
  obtain ⟨fee', native', h'⟩ := bind_eq_ok.mp h'
  obtain ⟨human', converted', h'⟩ := bind_eq_ok.mp h'
  have price := prices_nonneg.fee
  rw [le_iff_value, value_zero] at gasPrice price
  rw [UInt64.le_iff_toNat_le] at fewer
  have limits : (ofUInt64 limit').value ≤ (ofUInt64 limit).value := by
    rw [value_ofUInt64, value_ofUInt64]
    exact_mod_cast fewer
  have fees : fee'.value ≤ fee.value := by
    apply (roundsTo_of_times native').mono (roundsTo_of_times native)
    exact mul_le_mul_of_nonneg_right limits gasPrice
  have humans := Amount.toHuman_mono converted' converted fees
  rw [le_iff_value]
  apply (roundsTo_of_times h').mono (roundsTo_of_times h)
  exact mul_le_mul_of_nonneg_right humans price

end CostModel

/-- Less gas with the same fee costs no more, and what it costs is a decimal when the larger cost
is one. -/
theorem Assessment.cost_mono {a a' : Assessment} {cost : Decimal} (gas_nonneg : zero ≤ a'.gasCost)
    (gas : a'.gasCost ≤ a.gasCost) (fee : a'.venueFee = a.venueFee) (h : a.cost = .ok cost) :
    ∃ cost', a'.cost = .ok cost' ∧ cost' ≤ cost := by
  rw [le_iff_value, value_zero] at gas_nonneg
  rw [le_iff_value] at gas
  have sum := roundsTo_of_plus h
  -- the sum lies between the fee alone and the larger cost
  have inRange : Roundable (a'.gasCost.value + a'.venueFee.value) := by
    refine (roundable_value a.venueFee).between ⟨cost, sum⟩ ?_ ?_
    · rw [fee]
      linarith
    · rw [fee]
      linarith
  obtain ⟨cost', sum'⟩ := exists_add?_iff.mpr inRange
  refine ⟨cost', orAbort_eq_ok.mpr sum', le_iff_value.mpr ?_⟩
  apply (roundsTo_of_add? sum').mono sum
  rw [fee]
  exact add_le_add_left gas a.venueFee.value

namespace CostModel

variable {m : CostModel} {u : Units} {p : Plan} {s s' : SwapSimulation} {prices : PriceSheet}
  {a a' : Assessment}

/-- A better simulation never makes an assessment worse: more expected output or less gas leaves
profit, accepted output, gas and cost as good as they were, and a profitable plan profitable. -/
theorem assess_mono (prices_nonneg : prices.Nonneg) (tolerance : m.slippageTolerance ≤ one)
    (gasPrice : zero ≤ m.gasPrice) (adjustment : zero ≤ m.gasAdjustment)
    (more : s.expectedOut ≤ s'.expectedOut) (less : s'.gasEstimate ≤ s.gasEstimate)
    (h : m.assess u p s prices = .ok a) (h' : m.assess u p s' prices = .ok a') : a.NoWorse a' := by
  have assessed := assess_eq_ok_iff.mp h
  have assessed' := assess_eq_ok_iff.mp h'
  have minOut := minOut_mono tolerance more assessed.minOut_eq assessed'.minOut_eq
  have profit := profit_mono prices_nonneg minOut assessed.profit_eq assessed'.profit_eq
  have gasLimit := gasLimit_mono adjustment less assessed.gasLimit_eq assessed'.gasLimit_eq
  have gasCost := gasCost_mono prices_nonneg gasPrice gasLimit assessed.gasCost_eq
    assessed'.gasCost_eq
  have fee := Except.ok.inj (assessed'.venueFee_eq.symm.trans assessed.venueFee_eq)
  have cost : ∀ cost, a.cost = .ok cost → ∃ cost', a'.cost = .ok cost' ∧ cost' ≤ cost := by
    intro cost total
    exact Assessment.cost_mono (assessed'.gasCost_nonneg prices_nonneg gasPrice) gasCost fee total
  refine ⟨profit, minOut, gasLimit, cost, ?_⟩
  intro profitable
  obtain ⟨total, sum, covered⟩ := bind_eq_ok.mp profitable
  obtain ⟨total', sum', lower⟩ := cost total sum
  have covered : total ≤ a.profit := of_decide_eq_true (Except.ok.inj covered)
  refine bind_eq_ok.mpr ⟨total', sum', congrArg Except.ok (decide_eq_true ?_)⟩
  rw [le_iff_value] at lower covered profit ⊢
  exact lower.trans (covered.trans profit)

/-- The first output falls short of the base it replaces, and the plan is profitable by its spread
alone; the second output exceeds the base. -/
theorem assess_mono_of_shortfall :
    let m : CostModel := ⟨.ofWord 1 2, .ofWord 10 0, .ofWord 25 3, .ofWord 15 1, 6⟩
    let p : Plan := ⟨.venueBid, .ofWord 2000000 0, .ofWord 4100000 0, .ofWord 4000000 0, [], []⟩
    let prices : PriceSheet := ⟨.ofWord 10 0, .ofWord 1 0, .ofWord 5 1⟩
    let s : SwapSimulation := ⟨.ofWord 2015151 0, 100000⟩
    let s' : SwapSimulation := ⟨.ofWord 2030303 0, 80001⟩
    prices.Nonneg ∧ m.slippageTolerance ≤ one ∧ zero ≤ m.gasPrice ∧ zero ≤ m.gasAdjustment ∧
      s.expectedOut ≤ s'.expectedOut ∧ s'.gasEstimate ≤ s.gasEstimate ∧
      ∃ a a', m.assess ⟨6, 6⟩ p s prices = .ok a ∧ m.assess ⟨6, 6⟩ p s' prices = .ok a' ∧
        a.NoWorse a' ∧ a.minOut < p.base ∧ p.base < a'.minOut ∧
        a.isProfitable = .ok true ∧ a'.isProfitable = .ok true := by
  intro m p prices s s'
  have nonneg : prices.Nonneg := ⟨by decide, by decide, by decide⟩
  obtain ⟨a, assessed, short, profitable⟩ := exists_eq_ok (x := m.assess ⟨6, 6⟩ p s prices)
    (P := fun a => a.minOut < p.base ∧ ∃ b ∈ a.isProfitable.toOption, b = true) (by decide +kernel)
  obtain ⟨a', assessed', above⟩ := exists_eq_ok (x := m.assess ⟨6, 6⟩ p s' prices)
    (P := fun a => p.base < a.minOut) (by decide +kernel)
  have noWorse := assess_mono nonneg (by decide) (by decide) (by decide) (by decide) (by decide)
    assessed assessed'
  obtain ⟨_, profitable, rfl⟩ := exists_eq_ok profitable
  exact ⟨nonneg, by decide, by decide, by decide, by decide, by decide, a, a', assessed, assessed',
    noWorse, short, above, profitable, noWorse.isProfitable profitable⟩

end CostModel

end CrossBook.Trade
