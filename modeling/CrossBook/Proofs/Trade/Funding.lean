import CrossBook.Proofs.Trade.Walk
import CrossBook.Trade.Funding

/-!
# Funded plans

A plan that is cut down keeps the orders it still reaches, which come first, and is repriced along
its steps. Funding caps base and quote by what is available. The amount derived from the other asset
is rounded, but is cut off to a whole number and capped again, so no rounding spends too much.

## Main definitions

* `Trade.Plan.baseCap`, `Trade.Plan.quoteCap` — the most that is spent of both assets
* `Trade.Plan.CutDown` — what a plan and a cut down plan have to do with each other
* `Trade.Plan.Covered` — a plan is covered by what is available

## Main results

* `Trade.Plan.Consistent.resize` — plans that are resized are cut down
* `Trade.Plan.Consistent.fund` — funded plans are covered
-/

namespace CrossBook.Trade

open Decimal

namespace Plan

variable {p r : Plan} {base quote baseAvailable quoteAvailable : Decimal}

/-! ### Cutting down -/

/-- A plan cut down to less base: whole units of quote on the chain, and the first of the claims, of
which some are left as long as some base is. -/
structure CutDown (p r : Plan) : Prop where
  direction_eq : r.direction = p.direction
  base_nonneg : 0 ≤ r.base.value
  chainQuote_whole : r.chainQuote.IsWhole
  chainQuote_nonneg : 0 ≤ r.chainQuote.value
  claims_prefix : r.claims <+: p.claims
  nothing : r.base.value = 0 → r.chainQuote.value = 0 ∧ r.claims = []
  claims_ne_nil : 0 < r.base.value → r.claims ≠ []

section Beginnings

variable {α : Type} {begins : α → Decimal} {b : Decimal} {l : List α}

/-- In the order in which they begin, those before a base come first. -/
theorem filter_lt_eq_takeWhile
    (sorted : l.Pairwise fun a a' => (begins a).value ≤ (begins a').value) :
    (l.filter fun a => begins a < b) = l.takeWhile fun a => begins a < b := by
  induction l with
  | nil => rfl
  | cons a rest ih =>
    obtain ⟨first, later⟩ := List.pairwise_cons.mp sorted
    by_cases before : begins a < b
    · simp only [List.filter_cons, List.takeWhile_cons, decide_eq_true before, if_true, ih later]
    · -- what follows begins no earlier, so none of it is before the base
      rw [List.takeWhile_cons_of_neg (by simpa using before)]
      refine List.filter_eq_nil_iff.mpr fun a' among before' => before ?_
      have start := lt_iff_value.mp (of_decide_eq_true before')
      rcases List.mem_cons.mp among with rfl | behind
      · exact lt_iff_value.mpr start
      · exact lt_iff_value.mpr ((first a' behind).trans_lt start)

/-- Nothing begins before a base of nothing. -/
theorem filter_lt_eq_nil (nonneg : ∀ a ∈ l, 0 ≤ (begins a).value) (nonpos : b.value ≤ 0) :
    (l.filter fun a => begins a < b) = [] :=
  List.filter_eq_nil_iff.mpr fun a among before =>
    absurd (lt_iff_value.mp (of_decide_eq_true before)) (not_lt.mpr (nonpos.trans (nonneg a among)))

end Beginnings

theorem amounts_of_resize (h : p.resize base quote = .ok r) : r.base = base ∧ r.quote = quote := by
  obtain ⟨chainQuote, cost, h⟩ := bind_eq_ok.mp h
  obtain rfl := Except.ok.inj h
  exact ⟨rfl, rfl⟩

/-- Repricing comes to a whole number of units that is not negative. -/
theorem repriced_spec {steps : List Step} {cost : Decimal}
    (nonneg : ∀ s ∈ steps,
      0 ≤ s.baseBefore.value ∧ 0 ≤ s.chainQuoteBefore.value ∧ 0 < s.chainPrice.value)
    (before : ∀ s ∈ steps, s.baseBefore.value < base.value) (h : repriced base steps = .ok cost) :
    cost.IsWhole ∧ 0 ≤ cost.value := by
  unfold repriced at h
  split at h
  · obtain rfl := Except.ok.inj h
    exact ⟨isWhole_zero, value_zero.ge⟩
  · next s last =>
    have among := List.mem_of_getLast? last
    obtain ⟨-, quoteBefore, price⟩ := nonneg s among
    obtain ⟨rest, difference, h⟩ := bind_eq_ok.mp h
    obtain ⟨part, product, h⟩ := bind_eq_ok.mp h
    obtain ⟨total, sum, h⟩ := bind_eq_ok.mp h
    obtain rfl := Except.ok.inj h
    have rest_nonneg : 0 ≤ rest.value :=
      (roundsTo_of_minus difference).nonneg (sub_nonneg.mpr (before s among).le)
    have part_nonneg : 0 ≤ part.value :=
      (roundsTo_of_times product).nonneg (mul_nonneg rest_nonneg price.le)
    have total_nonneg : 0 ≤ total.value :=
      (roundsTo_of_plus sum).nonneg (add_nonneg quoteBefore part_nonneg)
    exact ⟨trunc_isWhole total, trunc_nonneg total_nonneg⟩

/-- A consistent plan that is resized to no more base is cut down. -/
theorem Consistent.resize (consistent : p.Consistent) (nonneg : 0 ≤ base.value)
    (le : base.value ≤ p.base.value) (h : p.resize base quote = .ok r) :
    p.CutDown r ∧ r.base = base ∧ r.quote = quote := by
  obtain ⟨chainQuote, cost, h⟩ := bind_eq_ok.mp h
  obtain rfl := Except.ok.inj h
  have before : ∀ s ∈ p.steps.filter fun s => s.baseBefore < base,
      s.baseBefore.value < base.value := fun s among =>
    lt_iff_value.mp (of_decide_eq_true (List.mem_filter.mp among).2)
  obtain ⟨whole, cost_nonneg⟩ := repriced_spec
    (fun s among => consistent.steps_nonneg s (List.mem_filter.mp among).1) before cost
  refine ⟨⟨rfl, nonneg, whole, cost_nonneg, ?_, fun zero => ⟨?_, ?_⟩, fun positive => ?_⟩, rfl, rfl⟩
  · rw [claims, filter_lt_eq_takeWhile consistent.touches_sorted]
    exact (List.takeWhile_prefix _).map _
  · rw [filter_lt_eq_nil (fun s among => (consistent.steps_nonneg s among).1) zero.le] at cost
    obtain rfl := Except.ok.inj cost
    exact value_zero
  · rw [claims, filter_lt_eq_nil (fun t among => (consistent.touches_within t among).1) zero.le]
    rfl
  · -- the first order was reached before anything was matched
    dsimp only at positive
    rcases consistent.first_touch with ⟨-, zero⟩ | ⟨t, among, start⟩
    · linarith
    · have reached : t ∈ p.touches.filter fun t => t.baseBefore < base :=
        List.mem_filter.mpr ⟨among, decide_eq_true (lt_iff_value.mpr (by rwa [start]))⟩
      exact List.ne_nil_of_mem (List.mem_map_of_mem reached)

/-! ### What is available -/

/-- The most base that is spent: balances below zero count as nothing. -/
def baseCap (p : Plan) (baseAvailable : Decimal) : Decimal := clamp p.base (baseAvailable.max .zero)

/-- The most quote that is spent: balances below zero count as nothing. -/
def quoteCap (p : Plan) (quoteAvailable : Decimal) : Decimal :=
  clamp p.quote (quoteAvailable.max .zero)

theorem value_baseCap (p : Plan) (baseAvailable : Decimal) :
    (p.baseCap baseAvailable).value = Min.min p.base.value (Max.max baseAvailable.value 0) := by
  rw [baseCap, clamp, value_min, value_max, value_zero]

theorem value_quoteCap (p : Plan) (quoteAvailable : Decimal) :
    (p.quoteCap quoteAvailable).value = Min.min p.quote.value (Max.max quoteAvailable.value 0) := by
  rw [quoteCap, clamp, value_min, value_max, value_zero]

theorem isEmpty_iff : p.IsEmpty ↔ p.base.value ≤ 0 ∨ p.quote.value ≤ 0 := by
  rw [IsEmpty, le_iff_value, le_iff_value, value_zero]

theorem price_pos_of_price? {price : Decimal} (h : p.price? = some price) :
    0 < p.base.value ∧ 0 < p.quote.value ∧ 0 ≤ price.value := by
  by_cases empty : p.IsEmpty
  · rw [price?, if_pos empty] at h
    cases h
  · rw [price?, if_neg empty] at h
    rw [isEmpty_iff, not_or, not_le, not_le] at empty
    exact ⟨empty.1, empty.2, (roundsTo_of_div? h).nonneg (div_pos empty.2 empty.1).le⟩

theorem orZero_nonneg {d : Option Decimal} (h : ∀ a ∈ d, 0 ≤ a.value) : 0 ≤ (orZero d).value := by
  cases d with
  | none => exact value_zero.ge
  | some a => exact h a rfl

/-- The whole amounts under both caps are not negative. -/
theorem capped_nonneg {price baseCap quoteCap : Decimal} (price_nonneg : 0 ≤ price.value)
    (base_nonneg : 0 ≤ baseCap.value) (quote_nonneg : 0 ≤ quoteCap.value) :
    0 ≤ (capped price baseCap quoteCap).1.value ∧ 0 ≤ (capped price baseCap quoteCap).2.value := by
  unfold capped
  split_ifs
  · have quote := trunc_nonneg quote_nonneg
    exact ⟨trunc_nonneg (orZero_nonneg fun a quotient =>
      (roundsTo_of_div? quotient).nonneg (div_nonneg quote price_nonneg)), quote⟩
  · have base := trunc_nonneg base_nonneg
    exact ⟨base, trunc_nonneg (orZero_nonneg fun a product =>
      (roundsTo_of_mul? product).nonneg (mul_nonneg base price_nonneg))⟩

theorem isWhole_min {a b : Decimal} (whole : a.IsWhole) (h : b.IsWhole ∨ a.value ≤ b.value) :
    (a.min b).IsWhole := by
  unfold Decimal.min
  split_ifs with le
  · exact whole
  · exact h.resolve_right fun le' => le (le_iff_value.mpr le')

/-- The base that the whole units of an amount of quote buy is not above what the amount buys. -/
theorem orZero_div?_trunc_le {a price q : Decimal} (nonneg : 0 ≤ a.value)
    (price_nonneg : 0 ≤ price.value) (h : a.div? price = some q) :
    (orZero (a.trunc.div? price)).value ≤ q.value := by
  have quotient := roundsTo_of_div? h
  cases found : a.trunc.div? price with
  | none =>
    rw [orZero, Option.getD_none, value_zero]
    exact quotient.nonneg (div_nonneg nonneg price_nonneg)
  | some b =>
    exact (roundsTo_of_div? found).mono quotient
      (div_le_div_of_nonneg_right (trunc_le nonneg) price_nonneg)

/-- The base that is spent is whole, unless its cap has a fraction and the base that the cap on
quote buys is no decimal. -/
theorem capped_whole {price baseCap quoteCap : Decimal} (price_nonneg : 0 ≤ price.value)
    (base_nonneg : 0 ≤ baseCap.value) (quote_nonneg : 0 ≤ quoteCap.value)
    (fits : baseCap.IsWhole ∨ price.value = 0 ∨ (quoteCap.div? price).isSome) :
    ((capped price baseCap quoteCap).1.min baseCap).IsWhole := by
  unfold capped
  split_ifs with quoteBinds
  · refine isWhole_min (trunc_isWhole _) (fits.imp_right fun fits => ?_)
    have bought := orZero_nonneg (d := quoteCap.trunc.div? price) fun a quotient =>
      (roundsTo_of_div? quotient).nonneg (div_nonneg (trunc_nonneg quote_nonneg) price_nonneg)
    refine (trunc_le bought).trans ?_
    -- a quotient that is no decimal counts as zero, and its whole units may yet buy more than that
    rcases fits with free | fits
    · rw [div?, if_pos (units_eq_zero_iff.mpr free), orZero, Option.getD_none, value_zero]
      exact base_nonneg
    · obtain ⟨q, quotient⟩ := Option.isSome_iff_exists.mp fits
      have less := lt_iff_value.mp quoteBinds
      rw [quotient, orZero, Option.getD_some] at less
      exact (orZero_div?_trunc_le quote_nonneg price_nonneg quotient).trans less.le
  · exact isWhole_min (trunc_isWhole _) (.inr (trunc_le base_nonneg))

/-- A plan is covered by what is available: cut down to amounts that are not negative and above
neither the plan's nor what is available, with a base that is whole unless its cap has a fraction
and the base that the cap on quote buys at the plan's price is no decimal. -/
structure Covered (p : Plan) (baseAvailable quoteAvailable : Decimal) (r : Plan) : Prop
    extends CutDown p r where
  base_le : r.base.value ≤ Min.min p.base.value (Max.max baseAvailable.value 0)
  quote_nonneg : 0 ≤ r.quote.value
  quote_le : r.quote.value ≤
    Min.min (Max.max p.quote.value 0) (Max.max quoteAvailable.value 0)
  base_whole : (∀ price ∈ p.price?, (p.baseCap baseAvailable).IsWhole ∨ price.value = 0 ∨
      ((p.quoteCap quoteAvailable).div? price).isSome) → r.base.IsWhole

/-- A consistent plan that is funded is covered. -/
theorem Consistent.fund (consistent : p.Consistent)
    (h : p.fund baseAvailable quoteAvailable = .ok r) :
    p.Covered baseAvailable quoteAvailable r := by
  unfold Plan.fund at h
  cases found : p.price? with
  | none =>
    -- an empty plan has no price, and is cut down to nothing
    rw [found] at h
    obtain ⟨cut, base, quote⟩ := consistent.resize value_zero.ge
      (by rw [value_zero]; exact consistent.base_nonneg) h
    refine ⟨cut, ?_, ?_, ?_, ?_⟩
    · rw [base, value_zero]
      exact le_min consistent.base_nonneg (le_max_right _ _)
    · rw [quote, value_zero]
    · rw [quote, value_zero]
      exact le_min (le_max_right _ _) (le_max_right _ _)
    · rw [base]
      exact fun _ => isWhole_zero
  | some price =>
    rw [found] at h
    obtain ⟨base_pos, quote_pos, price_nonneg⟩ := price_pos_of_price? found
    have baseCap_nonneg : 0 ≤ (p.baseCap baseAvailable).value := by
      rw [value_baseCap]
      exact le_min base_pos.le (le_max_right _ _)
    have quoteCap_nonneg : 0 ≤ (p.quoteCap quoteAvailable).value := by
      rw [value_quoteCap]
      exact le_min quote_pos.le (le_max_right _ _)
    obtain ⟨base_nonneg, quote_nonneg⟩ :=
      capped_nonneg price_nonneg baseCap_nonneg quoteCap_nonneg
    -- whatever was derived from the other asset is capped once more
    obtain ⟨cut, base, quote⟩ := consistent.resize
      (by rw [value_min]; exact le_min base_nonneg baseCap_nonneg)
      (by rw [value_min]; exact (min_le_right _ _).trans ((value_baseCap p _).trans_le
        (min_le_left _ _))) h
    refine ⟨cut, ?_, ?_, ?_, ?_⟩
    · rw [base, value_min, ← value_baseCap]
      exact min_le_right _ _
    · rw [quote, value_min]
      exact le_min quote_nonneg quoteCap_nonneg
    · rw [quote, value_min, max_eq_left quote_pos.le, ← value_quoteCap]
      exact min_le_right _ _
    · rw [base]
      exact fun fits => capped_whole price_nonneg baseCap_nonneg quoteCap_nonneg (fits price found)

end Plan

end CrossBook.Trade
