import CrossBook.Proofs.Conversions
import CrossBook.Proofs.Trade.Costs
import CrossBook.Trade.Walk

/-!
# Judging a plan

A plan is judged by its assessment, by what it costs, and by whether its profit covers that. Most of
the arithmetic of an assessment aborts where it has no answer, so a judgement is sure to come, or
its overflow to be reported, only where all that the plan is judged by is within limits.

## Main definitions

* `Trade.CostModel.judge` — a plan is judged
* `Trade.Limits` — whole numbers that bound what a plan is judged by
* `Trade.Limits.Bound`, `Trade.Limits.Fit` — they do, and nothing within them overflows

## Main results

* `Trade.Limits.Bound.minOut_le`, `Trade.Limits.Bound.gasCost_le`, `Trade.Limits.Bound.venueFee_le`
  — what is computed on the way is bounded as well
* `Trade.CostModel.judge_reports` — a judgement comes or an overflow is reported, unless the limits
  are passed
-/

namespace CrossBook.Trade

open Decimal

variable {P : Failure → Prop}

/-- A plan is judged: its assessment, what it costs, and whether its profit covers that. -/
def CostModel.judge (m : CostModel) (u : Units) (p : Plan) (s : SwapSimulation)
    (prices : PriceSheet) : Except Failure (Assessment × Decimal × Bool) := do
  let a ← m.assess u p s prices
  let cost ← a.cost
  let profitable ← a.isProfitable
  .ok (a, cost, profitable)

/-- No number of decimals is read as the lowest exponent, which has no counterpart. -/
structure CostModel.Negatable (m : CostModel) (u : Units) : Prop where
  base : Amount.exponentOfDecimals u.base ≠ Amount.lowestExponent
  quote : Amount.exponentOfDecimals u.quote ≠ Amount.lowestExponent
  fee : Amount.exponentOfDecimals m.feeDecimals ≠ Amount.lowestExponent

/-- A failure that is reported, or that a number of decimals without a counterpart brings. -/
def CostModel.KnownFailure (m : CostModel) (u : Units) (f : Failure) : Prop :=
  (∃ operation, f = .ofDomain (.precisionOverflow operation)) ∨
    ¬ m.Negatable u ∧ f = .abort .wordNegation

/-! ### Limits -/

/-- Whole numbers that bound what a plan is judged by. -/
structure Limits where
  amount : ℕ
  price : ℕ
  adjustment : ℕ
  gasPrice : ℕ
  takerFee : ℕ

namespace Limits

variable {l : Limits} {m : CostModel} {u : Units} {p : Plan} {s : SwapSimulation}
  {prices : PriceSheet}

/-- What a plan is judged by is within the limits. The tolerance is a share, and no number of
decimals is read as a negative exponent. -/
structure Bound (l : Limits) (m : CostModel) (u : Units) (p : Plan) (s : SwapSimulation)
    (prices : PriceSheet) : Prop where
  slippage : 0 ≤ m.slippageTolerance.value ∧ m.slippageTolerance.value ≤ 1
  expectedOut : |s.expectedOut.value| ≤ l.amount
  base : |p.base.value| ≤ l.amount
  quote : |p.quote.value| ≤ l.amount
  chainQuote : |p.chainQuote.value| ≤ l.amount
  basePrice : |prices.base.value| ≤ l.price
  quotePrice : |prices.quote.value| ≤ l.price
  feePrice : |prices.fee.value| ≤ l.price
  adjustment : |m.gasAdjustment.value| ≤ l.adjustment
  gasPrice : |m.gasPrice.value| ≤ l.gasPrice
  takerFee : |m.takerFeeBps.value| ≤ l.takerFee
  baseDecimals : 0 ≤ Amount.exponentOfDecimals u.base
  quoteDecimals : 0 ≤ Amount.exponentOfDecimals u.quote
  feeDecimals : 0 ≤ Amount.exponentOfDecimals m.feeDecimals

/-- Nothing that is computed within the limits overflows. -/
structure Fit (l : Limits) : Prop where
  change : l.amount + l.amount ≤ maxCoefficient
  profit : (l.amount + l.amount) * l.price + (l.amount + l.amount) * l.price ≤ maxCoefficient
  gas : twoTo 64 * l.adjustment ≤ maxCoefficient
  fee : twoTo 64 * l.gasPrice ≤ maxCoefficient
  cost : twoTo 64 * l.gasPrice * l.price + l.amount * l.price * l.takerFee ≤ maxCoefficient

theorem Fit.value_le (h : l.Fit) : (l.amount + l.amount) * l.price ≤ maxCoefficient :=
  (Nat.le_add_right _ _).trans h.profit

theorem Fit.notional_le (h : l.Fit) : l.amount * l.price ≤ maxCoefficient :=
  (Nat.mul_le_mul_right _ (Nat.le_add_right _ _)).trans h.value_le

theorem abs_ofUInt64_le (n : UInt64) : |(ofUInt64 n).value| ≤ (twoTo 64 : ℕ) := by
  rw [value_ofUInt64, abs_of_nonneg (Nat.cast_nonneg _)]
  exact_mod_cast (n.toNat_lt.trans_eq (by decide : 2 ^ 64 = twoTo 64)).le

theorem Bound.minOut_le {out : Decimal} (b : l.Bound m u p s prices) (h : m.minOut s = .ok out) :
    |out.value| ≤ l.amount := by
  obtain ⟨share, difference, h⟩ := bind_eq_ok.mp h
  obtain ⟨accepted, product, h⟩ := bind_eq_ok.mp h
  obtain rfl := Except.ok.inj h
  -- the tolerance leaves a share that is no larger than one, and truncating adds nothing
  obtain ⟨nonneg, le_one⟩ := b.slippage
  have share_le : |share.value| ≤ (1 : ℕ) := by
    refine (roundsTo_of_minus difference).abs_value_le (abs_le.mpr ⟨?_, ?_⟩)
    · rw [value_one]
      push_cast
      linarith
    · rw [value_one]
      push_cast
      linarith
  refine (abs_trunc_le _).trans ?_
  simpa using abs_mul?_le b.expectedOut share_le (orError_eq_ok.mp product)

theorem Bound.gasCost_le {gasLimit : UInt64} {cost : Decimal} (b : l.Bound m u p s prices)
    (h : m.gasCost prices gasLimit = .ok cost) :
    |cost.value| ≤ (twoTo 64 * l.gasPrice * l.price : ℕ) := by
  obtain ⟨fee, native, h⟩ := bind_eq_ok.mp h
  obtain ⟨human, converted, h⟩ := bind_eq_ok.mp h
  have fee_le := abs_times_le (abs_ofUInt64_le gasLimit) b.gasPrice native
  exact abs_times_le (Amount.abs_toHuman_le b.feeDecimals fee_le converted) b.feePrice h

theorem abs_dividedBy_basisPoints_le {a d : Decimal} {n : ℕ} (ha : |a.value| ≤ n)
    (h : a.dividedBy basisPoints = .ok d) : |d.value| ≤ n := by
  refine (roundsTo_of_dividedBy h).abs_value_le ?_
  rw [value_basisPoints, abs_div]
  exact (div_le_self (abs_nonneg _) (by norm_num)).trans ha

theorem Bound.venueFee_le {fee : Decimal} (b : l.Bound m u p s prices)
    (h : m.venueFee u p prices = .ok fee) :
    |fee.value| ≤ (l.amount * l.price * l.takerFee : ℕ) := by
  obtain ⟨human, converted, h⟩ := bind_eq_ok.mp h
  obtain ⟨notional, valued, h⟩ := bind_eq_ok.mp h
  obtain ⟨scaled, product, h⟩ := bind_eq_ok.mp h
  have notional_le :=
    abs_times_le (Amount.abs_toHuman_le b.quoteDecimals b.quote converted) b.quotePrice valued
  exact abs_dividedBy_basisPoints_le (abs_times_le notional_le b.takerFee product) h

end Limits

/-! ### Failures -/

/-- Arithmetic may abort, other than by a division. -/
structure ArithmeticAborts (P : Failure → Prop) : Prop where
  addition : P (.abort .addition)
  subtraction : P (.abort .subtraction)
  multiplication : P (.abort .multiplication)

/-- Arithmetic has aborted, other than by a division. -/
def IsArithmetic (f : Failure) : Prop :=
  ∃ a, f = .abort a ∧ (a = .addition ∨ a = .subtraction ∨ a = .multiplication)

theorem arithmeticAborts_isArithmetic :
    ArithmeticAborts fun f => P f ∨ IsArithmetic f :=
  ⟨.inr ⟨_, rfl, .inl rfl⟩, .inr ⟨_, rfl, .inr (.inl rfl)⟩, .inr ⟨_, rfl, .inr (.inr rfl)⟩⟩

namespace CostModel

variable {l : Limits} {m : CostModel} {u : Units} {p : Plan} {s : SwapSimulation}
  {prices : PriceSheet}

theorem failsOnly_minOut (report : P assessOverflow)
    (h : ArithmeticAborts P ∨ l.Bound m u p s prices) : FailsOnly P (m.minOut s) := by
  refine failsOnly_bind.mpr ⟨failsOnly_minus (h.imp ArithmeticAborts.subtraction fun b => ?_),
    fun _ _ => failsOnly_bind.mpr ⟨failsOnly_orError report, fun _ _ => failsOnly_ok _⟩⟩
  obtain ⟨nonneg, le_one⟩ := b.slippage
  exact ⟨1, 1, by simp, by rwa [abs_of_nonneg nonneg, Nat.cast_one], by decide⟩

theorem failsOnly_profit {out : Decimal} (shift : P Amount.shiftOverflow)
    (words : P (.abort .wordNegation) ∨ m.Negatable u)
    (h : ArithmeticAborts P ∨ l.Bound m u p s prices ∧ l.Fit)
    (out_le : l.Bound m u p s prices → |out.value| ≤ l.amount) :
    FailsOnly P (profit u p prices out) := by
  -- either direction takes differences of amounts and values them
  have change {a b : Decimal} (ha : l.Bound m u p s prices → |a.value| ≤ l.amount)
      (hb : l.Bound m u p s prices → |b.value| ≤ l.amount) : FailsOnly P (a.minus b) :=
    failsOnly_minus (h.imp ArithmeticAborts.subtraction fun ⟨b, fit⟩ =>
      ⟨_, _, ha b, hb b, fit.change⟩)
  have valued {a price : Decimal}
      (ha : l.Bound m u p s prices → |a.value| ≤ (l.amount + l.amount : ℕ))
      (hp : l.Bound m u p s prices → |price.value| ≤ l.price) : FailsOnly P (a.times price) :=
    failsOnly_times (h.imp ArithmeticAborts.multiplication fun ⟨b, fit⟩ =>
      ⟨_, _, ha b, hp b, fit.value_le⟩)
  unfold profit
  cases p.direction with
  | chainBid =>
    refine failsOnly_bind.mpr ⟨change out_le (·.quote), fun gain difference => ?_⟩
    refine failsOnly_bind.mpr ⟨Amount.failsOnly_toHuman shift (words.imp_right (·.quote)),
      fun human converted => valued (fun b => ?_) (·.quotePrice)⟩
    exact Amount.abs_toHuman_le b.quoteDecimals (abs_minus_le (out_le b) b.quote difference)
      converted
  | venueBid =>
    refine failsOnly_bind.mpr ⟨change (·.quote) (·.chainQuote), fun kept difference => ?_⟩
    refine failsOnly_bind.mpr ⟨Amount.failsOnly_toHuman shift (words.imp_right (·.quote)),
      fun spread converted => ?_⟩
    refine failsOnly_bind.mpr ⟨change out_le (·.base), fun surplus difference' => ?_⟩
    refine failsOnly_bind.mpr ⟨Amount.failsOnly_toHuman shift (words.imp_right (·.base)),
      fun drift converted' => ?_⟩
    have spread_le (b : l.Bound m u p s prices) : |spread.value| ≤ (l.amount + l.amount : ℕ) :=
      Amount.abs_toHuman_le b.quoteDecimals (abs_minus_le b.quote b.chainQuote difference) converted
    have drift_le (b : l.Bound m u p s prices) : |drift.value| ≤ (l.amount + l.amount : ℕ) :=
      Amount.abs_toHuman_le b.baseDecimals (abs_minus_le (out_le b) b.base difference') converted'
    refine failsOnly_bind.mpr ⟨valued spread_le (·.quotePrice), fun spreadValue product => ?_⟩
    refine failsOnly_bind.mpr ⟨valued drift_le (·.basePrice), fun driftValue product' => ?_⟩
    exact failsOnly_plus (h.imp ArithmeticAborts.addition fun ⟨b, fit⟩ =>
      ⟨_, _, abs_times_le (spread_le b) b.quotePrice product,
        abs_times_le (drift_le b) b.basePrice product', fit.profit⟩)

theorem failsOnly_gasLimit (report : P assessOverflow)
    (h : ArithmeticAborts P ∨ l.Bound m u p s prices ∧ l.Fit) : FailsOnly P (m.gasLimit s) := by
  refine failsOnly_bind.mpr ⟨failsOnly_times (h.imp ArithmeticAborts.multiplication fun ⟨b, fit⟩ =>
    ⟨_, _, Limits.abs_ofUInt64_le _, b.adjustment, fit.gas⟩), fun adjusted _ => ?_⟩
  split_ifs
  · exact failsOnly_error_iff.mpr report
  · exact failsOnly_orError report

theorem failsOnly_gasCost {gasLimit : UInt64} (shift : P Amount.shiftOverflow)
    (words : P (.abort .wordNegation) ∨ m.Negatable u)
    (h : ArithmeticAborts P ∨ l.Bound m u p s prices ∧ l.Fit) :
    FailsOnly P (m.gasCost prices gasLimit) := by
  refine failsOnly_bind.mpr ⟨failsOnly_times (h.imp ArithmeticAborts.multiplication fun ⟨b, fit⟩ =>
    ⟨_, _, Limits.abs_ofUInt64_le _, b.gasPrice, fit.fee⟩), fun fee native => ?_⟩
  refine failsOnly_bind.mpr ⟨Amount.failsOnly_toHuman shift (words.imp_right (·.fee)),
    fun human converted => failsOnly_times (h.imp ArithmeticAborts.multiplication
      fun ⟨b, fit⟩ => ?_)⟩
  have fee_le := abs_times_le (Limits.abs_ofUInt64_le gasLimit) b.gasPrice native
  exact ⟨_, _, Amount.abs_toHuman_le b.feeDecimals fee_le converted, b.feePrice,
    (Nat.le_add_right _ _).trans fit.cost⟩

/-- A quotient by ten thousand is no larger than what is divided. -/
theorem failsOnly_dividedBy_basisPoints (a : Decimal) : FailsOnly P (a.dividedBy basisPoints) := by
  refine failsOnly_orAbort (.inr (exists_div? (by rw [value_basisPoints]; norm_num) ?_))
  rw [value_basisPoints, abs_div]
  exact (div_le_self (abs_nonneg _) (by norm_num)).trans a.abs_value_le_maxCoefficient

theorem failsOnly_venueFee (shift : P Amount.shiftOverflow)
    (words : P (.abort .wordNegation) ∨ m.Negatable u)
    (h : ArithmeticAborts P ∨ l.Bound m u p s prices ∧ l.Fit) :
    FailsOnly P (m.venueFee u p prices) := by
  refine failsOnly_bind.mpr ⟨Amount.failsOnly_toHuman shift (words.imp_right (·.quote)),
    fun human converted => ?_⟩
  have human_le (b : l.Bound m u p s prices) : |human.value| ≤ l.amount :=
    Amount.abs_toHuman_le b.quoteDecimals b.quote converted
  refine failsOnly_bind.mpr ⟨failsOnly_times (h.imp ArithmeticAborts.multiplication fun ⟨b, fit⟩ =>
    ⟨_, _, human_le b, b.quotePrice, fit.notional_le⟩), fun notional valued => ?_⟩
  refine failsOnly_bind.mpr ⟨failsOnly_times (h.imp ArithmeticAborts.multiplication fun ⟨b, fit⟩ =>
    ⟨_, _, abs_times_le (human_le b) b.quotePrice valued, b.takerFee,
      (Nat.le_add_left _ _).trans fit.cost⟩), fun scaled _ => ?_⟩
  exact failsOnly_dividedBy_basisPoints scaled

theorem failsOnly_judge (report : P assessOverflow) (shift : P Amount.shiftOverflow)
    (words : P (.abort .wordNegation) ∨ m.Negatable u)
    (h : ArithmeticAborts P ∨ l.Bound m u p s prices ∧ l.Fit) :
    FailsOnly P (m.judge u p s prices) := by
  -- the cost is computed twice, for itself and for the comparison
  have cost {a : Assessment} (assessed : m.assess u p s prices = .ok a) : FailsOnly P a.cost := by
    have assessed := assess_eq_ok_iff.mp assessed
    exact failsOnly_plus (h.imp ArithmeticAborts.addition fun ⟨b, fit⟩ =>
      ⟨_, _, b.gasCost_le assessed.gasCost_eq, b.venueFee_le assessed.venueFee_eq, fit.cost⟩)
  refine failsOnly_bind.mpr ⟨?_, fun a assessed => failsOnly_bind.mpr ⟨cost assessed, fun _ _ =>
    failsOnly_bind.mpr ⟨failsOnly_bind.mpr ⟨cost assessed, fun _ _ => failsOnly_ok _⟩,
      fun _ _ => failsOnly_ok _⟩⟩⟩
  refine failsOnly_bind.mpr ⟨failsOnly_minOut report (h.imp_right And.left), fun out accepted => ?_⟩
  refine failsOnly_bind.mpr ⟨failsOnly_profit shift words h (·.minOut_le accepted), fun _ _ => ?_⟩
  refine failsOnly_bind.mpr ⟨failsOnly_gasLimit report h, fun _ _ => ?_⟩
  refine failsOnly_bind.mpr ⟨failsOnly_gasCost shift words h, fun _ _ => ?_⟩
  exact failsOnly_bind.mpr ⟨failsOnly_venueFee shift words h, fun _ _ => failsOnly_ok _⟩

theorem failsOnly_judge_of_known (known : ∀ f, m.KnownFailure u f → P f)
    (h : ArithmeticAborts P ∨ l.Bound m u p s prices ∧ l.Fit) :
    FailsOnly P (m.judge u p s prices) := by
  refine failsOnly_judge (known _ (.inl ⟨_, rfl⟩)) (known _ (.inl ⟨_, rfl⟩)) ?_ h
  by_cases negatable : m.Negatable u
  · exact .inr negatable
  · exact .inl (known _ (.inr ⟨negatable, rfl⟩))

variable (m u p s prices)

/-- Judging a plan ends with a judgement or with an overflow that is reported, unless a sum, a
difference or a product overflows that aborts, or a number of decimals has no counterpart. Nothing
aborts within limits that fit. -/
theorem judge_reports :
    (∃ judgement, m.judge u p s prices = .ok judgement) ∨
      (∃ operation, m.judge u p s prices = .error (.ofDomain (.precisionOverflow operation))) ∨
      (∃ a, m.judge u p s prices = .error (.abort a) ∧
        (a = .addition ∨ a = .subtraction ∨ a = .multiplication) ∧
        ∀ l : Limits, l.Bound m u p s prices → ¬ l.Fit) ∨
      ¬ m.Negatable u ∧ m.judge u p s prices = .error (.abort .wordNegation) := by
  cases result : m.judge u p s prices with
  | ok judgement => exact .inl ⟨judgement, rfl⟩
  | error f =>
    rcases failsOnly_judge_of_known (l := ⟨0, 0, 0, 0, 0⟩) (fun _ => Or.inl)
      (.inl arithmeticAborts_isArithmetic) f result with
      (⟨operation, rfl⟩ | ⟨negatable, rfl⟩) | ⟨a, rfl, arithmetic⟩
    · exact .inr (.inl ⟨operation, rfl⟩)
    · exact .inr (.inr (.inr ⟨negatable, rfl⟩))
    · -- within limits that fit, only what is known fails
      refine .inr (.inr (.inl ⟨a, rfl, arithmetic, fun l bound fit => ?_⟩))
      rcases failsOnly_judge_of_known (fun _ => id) (.inr ⟨bound, fit⟩) _ result with
        ⟨operation, same⟩ | ⟨-, same⟩
      · cases same
      · obtain rfl := Failure.abort.inj same
        simp at arithmetic

/-- Amounts of a billion whole units with six decimals fit at prices of a million. -/
example : Limits.Fit ⟨10 ^ 15, 10 ^ 6, 10, 10 ^ 3, 10 ^ 3⟩ :=
  ⟨by decide, by decide, by decide, by decide, by decide⟩

/-- A plan that earns ten units of quote, which are worth ten times `10 ^ 28`. -/
theorem judge_overflows :
    ∃ p, Plan.size ⟨0, 0⟩ .chainBid
        [⟨.one, ⟨false, 10, 0, by decide, by decide⟩⟩]
        [.fresh 1000000 1 "bid" "maker" ⟨false, 20, 0, by decide, by decide⟩] = .ok p ∧
      judge ⟨.zero, .zero, .zero, .one, 0⟩ ⟨0, 0⟩ p ⟨⟨false, 20, 0, by decide, by decide⟩, 0⟩
        ⟨.one, ⟨false, 10000000000000000000000000000, 0, by decide, by decide⟩, .one⟩
        = .error (.abort .multiplication) := by
  refine exists_eq_ok ?_
  decide +kernel

end CostModel

end CrossBook.Trade
