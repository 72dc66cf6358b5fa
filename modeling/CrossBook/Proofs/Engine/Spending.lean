import CrossBook.Proofs.Amount
import CrossBook.Proofs.Engine.Cycle

/-!
# What a trade spends

A trade spends no more than what its cycle fetched as balances at its start: neither the order on
the venue, whatever its quantity was rounded to in human units, nor the swap of base on the chain.

## Main definitions

* `Engine.OrderKind.paidWith` — the asset an order on the venue is paid with
* `Engine.Trader.held` — what the venue holds of an asset

## Main results

* `Engine.Trader.Funded.quantity_le` — an order is covered by the venue's balance
* `Engine.Trader.Funded.coinIn_le` — a swap of base is covered by the chain's balance
* `Engine.Trader.spending_covered` — funded plans and executed cycles are covered
-/

namespace CrossBook.Engine

open Trade Decimal

/-- The asset an order on the venue is paid with. -/
def OrderKind.paidWith (kind : OrderKind) (p : Pair) : Asset :=
  match kind with
  | .buy => p.quote
  | .sell => p.base

namespace Trader

variable {t : Trader} {venue : Table String Decimal} {coins : List Coin} {balances : Balances}
  {p : Plan} {order : MarketOrder} {swap : SwapRequest}

/-- What the venue holds of an asset. -/
def held (venue : Table String Decimal) (a : Asset) : Decimal :=
  (venue.get? a.symbol).getD .zero

/-! ### What is sent -/

theorem verdict_eq_trade {prices : PriceSheet} {simulation : SwapSimulation}
    (h : t.verdict p prices simulation = .ok (.trade order swap)) :
    t.venueOrder p = .ok order ∧ swap.coinIn = (t.swapLeg p).1 := by
  obtain ⟨a, -, h⟩ := bind_eq_ok.mp h
  obtain ⟨cost, -, h⟩ := bind_eq_ok.mp h
  split_ifs at h
  · obtain ⟨sent, ordered, h⟩ := bind_eq_ok.mp h
    obtain ⟨rfl, rfl⟩ := Verdict.trade.inj (Except.ok.inj h)
    exact ⟨ordered, rfl⟩
  · cases Except.ok.inj h

theorem balances_eq_ok (h : t.balances venue coins = .ok balances) :
    Amount.toNative (held venue t.listing.pair.base) t.listing.units.base
        = .ok balances.venueBase ∧
      Amount.toNative (held venue t.listing.pair.quote) t.listing.units.quote
        = .ok balances.venueQuote ∧
      balances.chainBase = amountOf t.listing.pair.base.denom coins := by
  obtain ⟨base, baseHeld, h⟩ := bind_eq_ok.mp h
  obtain ⟨quote, quoteHeld, h⟩ := bind_eq_ok.mp h
  obtain rfl := Except.ok.inj h
  exact ⟨baseHeld, quoteHeld, rfl⟩

/-! ### What covers it -/

/-- What is positive and capped by a balance is not above it. -/
theorem le_of_le_cap {amount cap available : ℚ} (positive : 0 < amount)
    (h : amount ≤ min cap (max available 0)) : amount ≤ available :=
  (le_max_iff.mp (h.trans (min_le_right _ _))).resolve_right (not_le.mpr positive)

/-- Dropping places of the human quantity of covered native units leaves it covered. -/
theorem withPlaces_le {human available amount quantity : Decimal} {decimals : Nat}
    {places : Option Nat} (native : Amount.toNative human decimals = .ok available)
    (back : Amount.toHuman amount decimals = .ok quantity) (le : decimals ≤ 28)
    (positive : 0 < amount.value) (covered : amount.value ≤ available.value) :
    withPlaces places quantity ≤ human := by
  have below := Amount.toHuman_le native back le positive covered
  have nonneg : 0 ≤ quantity.value :=
    (Amount.roundsTo_of_toHuman back le).nonneg (by positivity)
  rw [le_iff_value]
  cases places with
  | none => exact below
  | some n => exact (truncTo_le nonneg n).trans below

/-- An order on the venue is covered by what the venue holds of the asset it is paid with. -/
theorem Funded.quantity_le (funded : t.Funded venue coins p) (nonempty : ¬ p.IsEmpty)
    (base_le : t.listing.units.base ≤ 28) (quote_le : t.listing.units.quote ≤ 28)
    (ordered : t.venueOrder p = .ok order) :
    order.quantity ≤ held venue (order.kind.paidWith t.listing.pair) := by
  obtain ⟨balances, plan, fetched, consistent, fund⟩ := funded
  have covered := consistent.fund fund
  obtain ⟨baseHeld, quoteHeld, -⟩ := balances_eq_ok fetched
  rw [Plan.isEmpty_iff, not_or, not_le, not_le] at nonempty
  have direction := covered.direction_eq
  -- a purchase is paid with the venue's quote, a sale with its base
  cases sized : plan.direction <;> rw [sized] at direction covered <;>
    rw [venueOrder, direction] at ordered <;>
    obtain ⟨quantity, human, ordered⟩ := bind_eq_ok.mp ordered <;>
    obtain rfl := Except.ok.inj ordered
  · exact withPlaces_le quoteHeld human quote_le nonempty.2
      (le_of_le_cap nonempty.2 covered.quote_le)
  · exact withPlaces_le baseHeld human base_le nonempty.1
      (le_of_le_cap nonempty.1 covered.base_le)

/-- A swap of base is covered by what the chain holds of it. -/
theorem Funded.coinIn_le (funded : t.Funded venue coins p) (nonempty : ¬ p.IsEmpty)
    (direction : p.direction = .chainBid) :
    (t.swapLeg p).1.denom = t.listing.pair.base.denom ∧
      (t.swapLeg p).1.amount ≤ amountOf t.listing.pair.base.denom coins := by
  obtain ⟨balances, plan, fetched, consistent, fund⟩ := funded
  have covered := consistent.fund fund
  obtain ⟨-, -, chainBase⟩ := balances_eq_ok fetched
  rw [Plan.isEmpty_iff, not_or, not_le, not_le] at nonempty
  rw [covered.direction_eq] at direction
  have leg : (t.swapLeg p).1 = ⟨t.listing.pair.base.denom, p.base⟩ := by
    rw [swapLeg, covered.direction_eq, direction]
  rw [direction] at covered
  rw [leg, le_iff_value, ← chainBase]
  exact ⟨rfl, le_of_le_cap nonempty.1 covered.base_le⟩

/-- Nothing is spent beyond the balances. A sized plan that is funded is covered by the amounts that
are available, whatever they are; and in a cycle that trades, the order on the venue and a swap of
base are covered by the balances that the cycle fetched first. -/
theorem spending_covered :
    (∀ {u : Units} {direction : Direction} {levels : List Venue.Level} {orders : List Chain.Order}
      {plan r : Plan} {baseAvailable quoteAvailable : Decimal},
      Plan.size u direction levels orders = .ok plan →
      plan.fund baseAvailable quoteAvailable = .ok r →
      plan.Covered baseAvailable quoteAvailable r) ∧
    ∀ {t : Trader} {surroundings : Surroundings} {Kept : Cooldowns → Cooldowns → Prop}
      {height : Nat} {s s' : Stores} {trace : List Exchange} {e : Execution},
      t.Undisturbed surroundings Kept → t.listing.units.base ≤ 28 → t.listing.units.quote ≤ 28 →
      (t.cycle height).Runs surroundings s trace (.ok (.executed e)) s' →
      ∃ venue coins there rest order swap message,
        trace = t.fetched venue coins there :: rest ∧
        commitments trace =
          [.placeOrder order, .swap swap, .execute t.listing.address.contract message] ∧
        order.quantity ≤ held venue (order.kind.paidWith t.listing.pair) ∧
        (e.plan.direction = .chainBid → swap.coinIn.denom = t.listing.pair.base.denom ∧
          swap.coinIn.amount ≤ amountOf t.listing.pair.base.denom coins) := by
  refine ⟨fun sized fund => (Plan.size_consistent sized).fund fund, ?_⟩
  intro t surroundings Kept height s s' trace e undisturbed base_le quote_le run
  rcases runs_cycle undisturbed run with
    quiet | ⟨venue, coins, there, rest, p, order, swap, began, funded, decision, trading⟩
  · exact absurd rfl (quiet.untraded e)
  · obtain ⟨legs, flush, same⟩ := trading.executed
    obtain rfl := Outcome.executed.inj same
    obtain ⟨prices, simulation, -, verdict⟩ := decision.weighed
    obtain ⟨ordered, coinIn⟩ := verdict_eq_trade verdict
    refine ⟨venue, coins, there, rest, order, swap, _, began, trading.sent,
      funded.quantity_le decision.nonempty base_le quote_le ordered, fun direction => ?_⟩
    rw [coinIn]
    exact funded.coinIn_le decision.nonempty direction

/-- Forty millions of base and sixty of quote could be traded, of which the accounts hold thirty and
a thousand. -/
theorem spending_covered_of_sample :
    (∃ plan r, Plan.size ⟨6, 6⟩ .chainBid [⟨.ofWord 15 1, .ofWord 100000000 0⟩]
        [.fresh 1000000 7 "bid" "maker" (.ofWord 80000000 0)] = .ok plan ∧
      plan.fund (.ofWord 30000000 0) (.ofWord 1000000000 0) = .ok r ∧
      r.base.SameValue (.ofWord 30000000 0) ∧
      plan.Covered (.ofWord 30000000 0) (.ofWord 1000000000 0) r) ∧
    ∃ trace e s',
      (sampleTrader.cycle 100).Runs stillness sampleStores trace (.ok (.executed e)) s' ∧
      6 ≤ 28 ∧ ∃ venue coins there rest order swap message,
        trace = sampleTrader.fetched venue coins there :: rest ∧
        commitments trace = [.placeOrder order, .swap swap, .execute "book" message] ∧
        order.quantity ≤ held venue (order.kind.paidWith sampleTrader.listing.pair) ∧
        (e.plan.direction = .chainBid → swap.coinIn.denom = "uosmo" ∧
          swap.coinIn.amount ≤ amountOf "uosmo" coins) := by
  obtain ⟨covered, spending⟩ := spending_covered
  refine ⟨?_, ?_⟩
  · obtain ⟨plan, r, sized, fund, base⟩ := exists_both_eq_ok
      (x := Plan.size ⟨6, 6⟩ .chainBid [⟨.ofWord 15 1, .ofWord 100000000 0⟩]
        [.fresh 1000000 7 "bid" "maker" (.ofWord 80000000 0)])
      (f := fun plan => plan.fund (.ofWord 30000000 0) (.ofWord 1000000000 0))
      (P := fun _ r => r.base.SameValue (.ofWord 30000000 0)) (by decide +kernel)
    exact ⟨plan, r, sized, fund, base, covered sized fund⟩
  · obtain ⟨trace, e, s', run, -⟩ := sampleTrader_trades
    exact ⟨trace, e, s', run, by decide,
      spending (undisturbed_of_stillness sampleTrader) (by decide) (by decide) run⟩

/-- A plan with a negative amount of quote, which spends nothing, is funded with more quote than it
has. And where the base that quote buys is too large for a decimal, half a unit of base is spent. -/
theorem funding_exceptions :
    (∃ plan r, Plan.size ⟨0, 0⟩ .chainBid [⟨⟨true, 1, 0, by decide, by decide⟩, .one⟩]
        [.fresh 0 1 "bid" "osmo1maker" (.ofWord 5 0)] = .ok plan ∧
      plan.fund (.ofWord 10 0) (.ofWord 10 0) = .ok r ∧
      ¬ r.quote ≤ plan.quote.min ((Decimal.ofWord 10 0).max .zero)) ∧
    ∃ plan r, Plan.size ⟨0, 0⟩ .chainBid
        [⟨.ofWord 1 28, ⟨false, 40000000000000000000000000000, 0, by decide, by decide⟩⟩,
          ⟨.ofWord 2 28, ⟨false, 39000000000000000000000000000, 0, by decide, by decide⟩⟩]
        [.fresh (-108000000) 1 "bid" "osmo1maker" (.ofWord 79000000000000000 0)] = .ok plan ∧
      plan.fund (.ofWord 5 1) (.ofWord 795 2) = .ok r ∧ ¬ r.base.IsWhole := by
  exact ⟨exists_both_eq_ok (by decide +kernel), exists_both_eq_ok (by decide +kernel)⟩

end Trader

end CrossBook.Engine
