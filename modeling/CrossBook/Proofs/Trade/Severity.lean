import CrossBook.Proofs.Chain.Sides
import CrossBook.Proofs.Severity
import CrossBook.Proofs.Trade.Walk
import CrossBook.Trade.Funding
import CrossBook.Trade.Minimum
import CrossBook.Trade.Profit

/-!
# Failures on the way to a trade

A walk checks the side of each order it reaches. Over orders that all are on the side its direction
trades against, no failure of it says that the state cannot be. Nothing else that is computed for a
trade has such a failure, whatever it is computed from.

## Main definitions

* `Trade.Walk.OnSide` — all orders that are left are on the side that is traded against

## Main results

* `Trade.Walk.tame_step`, `Trade.Walk.OnSide.step` — one step over such orders
* `Trade.Plan.tame_size` — a whole walk
-/

namespace CrossBook.Trade

/-! ### Opportunities -/

@[simp] theorem tame_deviationBps (bid ask : Decimal) : Tame (deviationBps bid ask) := by
  unfold deviationBps
  split <;> simp

namespace Opportunity

variable (floor : Decimal) (d : Direction) (u : Units)

@[simp] theorem tame_ofPrices (bid ask : Decimal) : Tame (ofPrices floor d bid ask) := by
  unfold ofPrices
  split_ifs
  · exact tame_ok _
  · refine tame_bind.mpr ⟨tame_deviationBps bid ask, fun depth _ => ?_⟩
    cases depth <;> exact tame_ok _

@[simp] theorem tame_ofPrices? (bid ask : Option Decimal) : Tame (ofPrices? floor d bid ask) := by
  unfold ofPrices?
  split <;> simp

@[simp] theorem tame_humanPrice? (o : Option Chain.Order) : Tame (humanPrice? u o) := by
  cases o <;> simp [humanPrice?]

@[simp] theorem tame_between (venue : Venue.Book) (chain : Chain.RestingBook) :
    Tame (between floor u venue chain) := by
  unfold between
  refine tame_bind.mpr ⟨by simp, fun bid _ => tame_bind.mpr ⟨by simp, fun found _ => ?_⟩⟩
  cases found <;> simp

end Opportunity

/-! ### Walks -/

theorem Plan.not_isInvalid_sizingOverflow : ¬ Plan.sizingOverflow.IsInvalid :=
  Failure.not_isInvalid_ofDomain rfl

@[simp] theorem Plan.tame_extend (p : Plan) (matched venuePrice chainPrice : Decimal) :
    Tame (p.extend matched venuePrice chainPrice) := by
  simp [extend, tame_orError not_isInvalid_sizingOverflow]

namespace Walk

variable {u : Units} {w next : Walk}

@[simp] theorem tame_venueBase (w : Walk) (price : Decimal) : Tame (w.venueBase price) := by
  unfold venueBase
  split
  · exact tame_ok _
  · exact tame_orError Plan.not_isInvalid_sizingOverflow

@[simp] theorem tame_chainBase (w : Walk) (price : Decimal) : Tame (w.chainBase price) := by
  unfold chainBase
  split
  · exact tame_orError Plan.not_isInvalid_sizingOverflow
  · exact tame_ok _

@[simp] theorem tame_quoteLeft (left ofBase matched price : Decimal) :
    Tame (quoteLeft left ofBase matched price) := by
  simp [quoteLeft, tame_orError Plan.not_isInvalid_sizingOverflow]

@[simp] theorem tame_matchFirst (w : Walk) (o : Chain.Order) (venuePrice chainPrice : Decimal) :
    Tame (w.matchFirst o venuePrice chainPrice) := by
  unfold matchFirst
  refine tame_bind.mpr ⟨by simp, fun venueBase _ => tame_bind.mpr ⟨by simp, fun chainBase _ =>
    tame_bind.mpr ⟨by simp, fun plan _ => ?_⟩⟩⟩
  cases plan.direction <;> simp

/-- All orders that are left are on the side that is traded against. -/
def OnSide (w : Walk) : Prop := ∀ o ∈ w.chain, o.side = .ok w.plan.direction.chainSide

/-- An order that is on its side passes the check, and nothing else of a step has a failure that
says that the state cannot be. -/
theorem tame_step (sided : w.OnSide) : Tame (w.step u) := by
  unfold step
  split
  · next level _ o _ _ chain =>
    have onSide : Tame (liftDomain (o.expectSide w.plan.direction.chainSide)) := by
      rw [Chain.Order.expectSide_eq_ok (sided o (by simp [chain]))]
      exact tame_ok ()
    simp [onSide]
  · exact tame_ok _

/-- No step turns the walk around or brings in another order. -/
theorem OnSide.step (sided : w.OnSide) (step : Step u w (.more next)) : next.OnSide := by
  intro o among
  rw [direction_of_step step]
  refine sided o ?_
  cases step with
  | passLevel f crossing exhausted => exact among
  | passOrder f crossing exhausted => exact List.mem_of_mem_tail among
  | matching m => exact m.chain_same ▸ among

/-- So a whole walk over orders that are on their side has no such failure either. -/
theorem tame_run (fuel : Nat) (sided : w.OnSide) : Tame (w.run u fuel) :=
  failsOnly_run tame_step OnSide.step fuel sided

end Walk

/-! ### Plans -/

namespace Plan

variable {u : Units} {d : Direction}

/-- Sizing a plan over orders of the side that its direction trades against. -/
theorem tame_size {chain : List Chain.Order} (sided : ∀ o ∈ chain, o.side = .ok d.chainSide)
    (venue : List Venue.Level) : Tame (size u d venue chain) :=
  Walk.tame_run _ sided

@[simp] theorem tame_repriced (base : Decimal) (steps : List Step) :
    Tame (repriced base steps) := by
  unfold repriced
  split <;> simp

@[simp] theorem tame_resize (p : Plan) (base quote : Decimal) : Tame (p.resize base quote) := by
  simp [resize]

@[simp] theorem tame_fund (p : Plan) (base quote : Decimal) : Tame (p.fund base quote) := by
  unfold fund
  split <;> simp

end Plan

theorem not_isInvalid_minimumOverflow : ¬ minimumOverflow.IsInvalid :=
  Failure.not_isInvalid_ofDomain rfl

@[simp] theorem tame_minimumOfNotional (notional price : Decimal) (decimals : Nat) :
    Tame (minimumOfNotional notional price decimals) := by
  unfold minimumOfNotional
  have lack : ¬ (Failure.ofDomain (.invalidDecimal price.text)).IsInvalid :=
    Failure.not_isInvalid_ofDomain rfl
  simp [tame_orError not_isInvalid_minimumOverflow, lack]

/-! ### Profit and cost -/

theorem CostModel.not_isInvalid_assessOverflow : ¬ CostModel.assessOverflow.IsInvalid :=
  Failure.not_isInvalid_ofDomain rfl

@[simp] theorem Assessment.tame_cost (a : Assessment) : Tame a.cost := Decimal.tame_plus _ _

namespace CostModel

variable (m : CostModel) (u : Units) (p : Plan) (s : SwapSimulation) (prices : PriceSheet)

@[simp] theorem tame_minOut : Tame (m.minOut s) := by
  simp [minOut, tame_orError not_isInvalid_assessOverflow]

@[simp] theorem tame_profit (minOut : Decimal) : Tame (profit u p prices minOut) := by
  unfold profit
  split <;> simp

@[simp] theorem tame_gasLimit : Tame (m.gasLimit s) := by
  simp [gasLimit, tame_orError not_isInvalid_assessOverflow, not_isInvalid_assessOverflow]

@[simp] theorem tame_gasCost (limit : UInt64) : Tame (m.gasCost prices limit) := by
  simp [gasCost]

@[simp] theorem tame_venueFee : Tame (m.venueFee u p prices) := by
  simp [venueFee]

@[simp] theorem tame_assess : Tame (m.assess u p s prices) := by
  simp [assess]

end CostModel

end CrossBook.Trade
