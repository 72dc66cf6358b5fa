import CrossBook.Proofs.Trade.Opportunity
import CrossBook.Trade.Profit

/-!
# The costs of a trade

Gas and the venue's fee are products of what a plan is judged by, each of them rounded. Rounding
keeps signs, so neither cost is negative where none of its factors is, and a gas adjustment of one
or more is not rounded below the estimate.

## Main definitions

* `Trade.PriceSheet.Nonneg` — no price is negative
* `Trade.CostModel.Assessed` — an assessment with the computations it was made by

## Main results

* `Trade.CostModel.Assessed.gasLimit_ge` — gas is not sent below its estimate
* `Trade.CostModel.Assessed.gasCost_nonneg`, `Trade.CostModel.Assessed.venueFee_nonneg` — costs are
  not negative
-/

namespace CrossBook.Trade

open Decimal

/-- No price is negative. -/
structure PriceSheet.Nonneg (prices : PriceSheet) : Prop where
  base : zero ≤ prices.base
  quote : zero ≤ prices.quote
  fee : zero ≤ prices.fee

/-- Where neither cost is negative, their sum is not. -/
theorem Assessment.cost_nonneg {a : Assessment} {cost : Decimal} (h : a.cost = .ok cost)
    (gas : zero ≤ a.gasCost) (fee : zero ≤ a.venueFee) : zero ≤ cost := by
  rw [le_iff_value, value_zero] at gas fee ⊢
  exact (roundsTo_of_plus h).nonneg (add_nonneg gas fee)

namespace CostModel

variable {m : CostModel} {u : Units} {p : Plan} {s : SwapSimulation} {prices : PriceSheet}
  {a : Assessment}

/-- An assessment with the computations it was made by. -/
structure Assessed (m : CostModel) (u : Units) (p : Plan) (s : SwapSimulation)
    (prices : PriceSheet) (a : Assessment) : Prop where
  minOut_eq : m.minOut s = .ok a.minOut
  profit_eq : profit u p prices a.minOut = .ok a.profit
  gasLimit_eq : m.gasLimit s = .ok a.gasLimit
  gasCost_eq : m.gasCost prices a.gasLimit = .ok a.gasCost
  venueFee_eq : m.venueFee u p prices = .ok a.venueFee

theorem assess_eq_ok_iff : m.assess u p s prices = .ok a ↔ m.Assessed u p s prices a := by
  constructor
  · intro h
    obtain ⟨minOut, out, h⟩ := bind_eq_ok.mp h
    obtain ⟨profit, earned, h⟩ := bind_eq_ok.mp h
    obtain ⟨gasLimit, limit, h⟩ := bind_eq_ok.mp h
    obtain ⟨gasCost, gas, h⟩ := bind_eq_ok.mp h
    obtain ⟨venueFee, fee, h⟩ := bind_eq_ok.mp h
    obtain rfl := Except.ok.inj h
    exact ⟨out, earned, limit, gas, fee⟩
  · rintro ⟨out, earned, limit, gas, fee⟩
    exact bind_eq_ok.mpr ⟨_, out, bind_eq_ok.mpr ⟨_, earned, bind_eq_ok.mpr ⟨_, limit,
      bind_eq_ok.mpr ⟨_, gas, bind_eq_ok.mpr ⟨_, fee, rfl⟩⟩⟩⟩⟩

/-- The gas that is sent is the estimate adjusted, rounded and rounded up. -/
theorem gasLimit_eq_ok {limit : UInt64} (h : m.gasLimit s = .ok limit) :
    ∃ adjusted, RoundsTo (s.gasEstimate.toNat * m.gasAdjustment.value) adjusted ∧
      (limit.toNat : ℤ) = ⌈adjusted.value⌉ := by
  obtain ⟨adjusted, product, h⟩ := bind_eq_ok.mp h
  split_ifs at h with negative
  rw [lt_iff_value, not_lt, value_zero] at negative
  have ceiling := ceil_value_of_nonneg negative
  have word := toNat_of_toUInt64? (orError_eq_ok.mp h)
  rw [trunc_value_of_nonneg (negative.trans (ceiling ▸ Int.le_ceil _)), ceiling,
    Int.floor_intCast] at word
  refine ⟨adjusted, ?_, by exact_mod_cast word⟩
  rw [← value_ofUInt64]
  exact roundsTo_of_times product

namespace Assessed

/-- With an adjustment of one or more, the gas that is sent is not below the estimate. -/
theorem gasLimit_ge (h : m.Assessed u p s prices a) (adjustment : one ≤ m.gasAdjustment) :
    s.gasEstimate ≤ a.gasLimit := by
  obtain ⟨adjusted, product, limit⟩ := gasLimit_eq_ok h.gasLimit_eq
  rw [le_iff_value, value_one] at adjustment
  have estimate_le : (ofUInt64 s.gasEstimate).value ≤ adjusted.value := by
    refine product.ge ?_
    rw [value_ofUInt64]
    exact le_mul_of_one_le_right (Nat.cast_nonneg _) adjustment
  rw [value_ofUInt64] at estimate_le
  rw [UInt64.le_iff_toNat_le]
  have : (s.gasEstimate.toNat : ℤ) ≤ a.gasLimit.toNat := by
    rw [limit]
    exact_mod_cast estimate_le.trans (Int.le_ceil _)
  exact_mod_cast this

theorem gasCost_nonneg (h : m.Assessed u p s prices a) (prices_nonneg : prices.Nonneg)
    (gasPrice : zero ≤ m.gasPrice) : zero ≤ a.gasCost := by
  obtain ⟨fee, native, h⟩ := bind_eq_ok.mp h.gasCost_eq
  obtain ⟨human, converted, h⟩ := bind_eq_ok.mp h
  have price := prices_nonneg.fee
  rw [le_iff_value, value_zero] at gasPrice price ⊢
  have native_nonneg := (roundsTo_of_times native).nonneg
    (mul_nonneg (by rw [value_ofUInt64]; positivity) gasPrice)
  have human_nonneg := Amount.toHuman_nonneg converted native_nonneg
  exact (roundsTo_of_times h).nonneg (mul_nonneg human_nonneg price)

theorem venueFee_nonneg (h : m.Assessed u p s prices a) (prices_nonneg : prices.Nonneg)
    (quote : zero ≤ p.quote) (takerFee : zero ≤ m.takerFeeBps) : zero ≤ a.venueFee := by
  obtain ⟨human, converted, h⟩ := bind_eq_ok.mp h.venueFee_eq
  obtain ⟨notional, valued, h⟩ := bind_eq_ok.mp h
  obtain ⟨scaled, product, h⟩ := bind_eq_ok.mp h
  have price := prices_nonneg.quote
  rw [le_iff_value, value_zero] at quote takerFee price ⊢
  have human_nonneg := Amount.toHuman_nonneg converted quote
  have notional_nonneg := (roundsTo_of_times valued).nonneg (mul_nonneg human_nonneg price)
  have scaled_nonneg := (roundsTo_of_times product).nonneg (mul_nonneg notional_nonneg takerFee)
  exact (roundsTo_of_dividedBy h).nonneg
    (div_nonneg scaled_nonneg (by rw [value_basisPoints]; norm_num))

end Assessed

end CostModel

end CrossBook.Trade
