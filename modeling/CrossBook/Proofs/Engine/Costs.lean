import CrossBook.Proofs.Engine.Cycle
import CrossBook.Proofs.Settings
import CrossBook.Proofs.Trade.Costs

/-!
# What a trade pays for

A cycle trades only when the profit of its plan covers the cost. Settings that are accepted make the
cost of gas no less than nothing. They leave the gas adjustment and the venue's fee open, and where
those are below one and below zero, gas may be sent below its estimate and a loss may pass for
cheap.

## Main definitions

* `Engine.Trader.priced`, `Engine.Trader.simulated` — what a plan is weighed by

## Main results

* `Engine.Trader.weighed_of_executed` — every trade was weighed
* `Engine.Trader.costs_covered` — its profit covers what it costs
-/

namespace CrossBook.Engine.Trader

open Trade Decimal

variable {t : Trader} {surroundings : Surroundings} {height n : Nat} {s s' : Stores}
  {trace : List Exchange} {o o' : Outcome} {p : Plan} {e : Execution} {order : MarketOrder}
  {swap : SwapRequest}

/-! ### How a trade comes about -/

theorem eq_of_runs_finish
    (h : (t.finish o' (n := n)).Runs surroundings s trace (.ok o) s') : o = o' := by
  rw [finish, Program.runs_change_iff, Program.runs_done_iff] at h
  exact Except.ok.inj h.2.1

theorem not_executed_of_fail {f : Failure} :
    ¬ (t.fail height f (n := n)).Runs surroundings s trace (.ok (.executed e)) s' := by
  intro h
  unfold fail at h
  split at h
  · cases (Program.runs_done_iff.mp h).2.1
  · split_ifs at h
    · cases (Program.runs_done_iff.mp h).2.1
    · cases eq_of_runs_finish h

theorem plan_of_claim {legs : Legs}
    (h : (t.claim height p legs).Runs surroundings s trace (.ok (.executed e)) s') :
    e.plan = p := by
  rw [claim, Program.runs_look_iff, Program.runs_change_iff] at h
  split_ifs at h
  · obtain ⟨-, same, -⟩ := runs_close h
    rw [Outcome.executed.inj same]
  · obtain ⟨r, there, s₁, rest, -, -, -, h⟩ := Program.runs_call_iff.mp h
    obtain ⟨-, same, -⟩ := runs_close h
    rw [Outcome.executed.inj same]

/-- The exchange in which a cycle fetches prices. -/
def priced (t : Trader) (prices : PriceSheet) (there : List Call) : Exchange :=
  ⟨[t.priceCall t.listing.pair.base.denom, t.priceCall t.listing.pair.quote.denom,
      t.priceCall t.settings.chain.feeDenom], .untilFailure,
    .ok (.cons prices.base (.cons prices.quote (.cons prices.fee .nil))), there⟩

/-- The exchange in which a cycle has the swap of its plan simulated. -/
def simulated (t : Trader) (p : Plan) (simulation : SwapSimulation) (there : List Call) :
    Exchange :=
  ⟨[.simulate (t.swapLeg p).1 (t.swapLeg p).2], .untilAll, .cons (.ok simulation) .nil, there⟩

/-- Both legs of a plan were sent first, upon a verdict. -/
def SentUpon (t : Trader) (p : Plan) (prices : PriceSheet) (simulation : SwapSimulation)
    (trace : List Exchange) : Prop :=
  ∃ order swap sent rest, trace = sent :: rest ∧ sent.calls = [.placeOrder order, .swap swap] ∧
    t.verdict p prices simulation = .ok (.trade order swap)

theorem sent_of_weigh {prices : PriceSheet} {simulation : SwapSimulation}
    (h : (t.weigh height p prices simulation).Runs surroundings s trace (.ok (.executed e)) s') :
    e.plan = p ∧ t.SentUpon p prices simulation trace := by
  rw [weigh] at h
  rcases verdict : t.verdict p prices simulation with f | ⟨profit, cost⟩ | ⟨order, swap⟩ <;>
    rw [verdict, act] at h
  · exact (not_executed_of_fail h).elim
  · cases eq_of_runs_finish h
  · obtain ⟨answer, there, s₁, rest, rfl, -, -, h⟩ := Program.runs_ask_iff.mp h
    rcases answer with _ | ⟨venue, _ | ⟨chain, _ | _⟩⟩
    exact ⟨plan_of_claim h, order, swap, _, rest, rfl, rfl, verdict⟩

theorem simulated_of_simulate {prices : PriceSheet}
    (h : (t.simulate height p prices).Runs surroundings s trace (.ok (.executed e)) s') :
    e.plan = p ∧ ∃ simulation there rest, trace = t.simulated p simulation there :: rest ∧
      t.SentUpon p prices simulation rest := by
  rw [simulate] at h
  rcases enough : t.shortfall p prices with f | _ | ⟨fill, minimum⟩ <;>
    rw [enough, simulateUnless] at h
  · exact (not_executed_of_fail h).elim
  · obtain ⟨r, there, s₁, rest, rfl, -, -, h⟩ := Program.runs_call_iff.mp h
    rcases r with e | simulation
    · exact (not_executed_of_fail h).elim
    · obtain ⟨same, sent⟩ := sent_of_weigh h
      exact ⟨same, simulation, there, rest, rfl, sent⟩
  · cases eq_of_runs_finish h

theorem priced_of_takeUp {prospect : Except Failure Prospect}
    (h : (t.takeUp height prospect).Runs surroundings s trace (.ok (.executed e)) s') :
    ¬ e.plan.IsEmpty ∧ ∃ prices there simulation there' rest,
      trace = t.priced prices there :: t.simulated e.plan simulation there' :: rest ∧
      t.SentUpon e.plan prices simulation rest := by
  rcases prospect with f | _ | _ | p <;> rw [takeUp] at h
  · exact (not_executed_of_fail h).elim
  · cases eq_of_runs_finish h
  · cases eq_of_runs_finish h
  · rw [Program.runs_change_iff] at h
    split_ifs at h with nothing
    · cases eq_of_runs_finish h
    · obtain ⟨answer, there, s₁, rest, rfl, -, -, h⟩ := Program.runs_ask_iff.mp h
      rcases answer with f | ⟨_ | ⟨base, _ | ⟨quote, _ | ⟨fee, _ | _⟩⟩⟩⟩
      · exact (not_executed_of_fail h).elim
      · obtain ⟨rfl, simulation, there', rest, rfl, sent⟩ := simulated_of_simulate h
        exact ⟨nothing, ⟨base, quote, fee⟩, there, simulation, there', rest, rfl, sent⟩

/-- Every trade was weighed by prices and a simulation that its cycle was given, and the legs were
sent upon that. -/
theorem weighed_of_executed
    (h : (t.cycle height).Runs surroundings s trace (.ok (.executed e)) s') :
    ¬ e.plan.IsEmpty ∧ ∃ venue coins there prices there' simulation there'' rest,
      trace = t.fetched venue coins there :: t.priced prices there' ::
        t.simulated e.plan simulation there'' :: rest ∧
      t.SentUpon e.plan prices simulation rest := by
  rw [cycle, Program.runs_look_iff] at h
  rcases rests : s.cooldowns.blockedUntil t.name height with _ | blocked <;> rw [rests] at h
  · obtain ⟨answer, there, s₁, rest, rfl, -, -, h⟩ := Program.runs_ask_iff.mp h
    rcases answer with f | ⟨_ | ⟨venue, _ | ⟨coins, _ | _⟩⟩⟩
    · exact (not_executed_of_fail h).elim
    · obtain ⟨nonempty, prices, there', simulation, there'', rest, rfl, sent⟩ :=
        priced_of_takeUp (runs_compare_iff.mp h)
      exact ⟨nonempty, venue, coins, there, prices, there', simulation, there'', rest, rfl, sent⟩
  · cases eq_of_runs_finish h

/-! ### What it is weighed by -/

/-- A trade is worth its cost, and its swap is sent with the gas and the least output that were
assessed. -/
theorem assessed_of_verdict {prices : PriceSheet} {simulation : SwapSimulation}
    (h : t.verdict p prices simulation = .ok (.trade order swap)) :
    ∃ a cost, t.settings.costModel.assess t.listing.units p simulation prices = .ok a ∧
      a.cost = .ok cost ∧ cost ≤ a.profit ∧ swap.gasLimit = a.gasLimit ∧
      swap.minOut = a.minOut := by
  obtain ⟨a, assessed, h⟩ := bind_eq_ok.mp h
  obtain ⟨cost, sum, h⟩ := bind_eq_ok.mp h
  split_ifs at h with covered
  · obtain ⟨sent, -, h⟩ := bind_eq_ok.mp h
    obtain ⟨rfl, rfl⟩ := Verdict.trade.inj (Except.ok.inj h)
    exact ⟨a, cost, assessed, sum, covered, rfl, rfl⟩
  · cases Except.ok.inj h

/-- What settings that are accepted make of costs. Gas costs nothing less than nothing; it is not
limited below its estimate where it is adjusted by one or more; and where the venue's fee is not
negative, neither is the whole cost. A cycle trades only when the profit covers the cost, so where
the fee is not negative it trades at no loss. -/
theorem costs_covered {text : String} {settings : Settings}
    (accepted : Settings.parse text = .ok settings) :
    (∀ u plan simulation prices a, zero ≤ plan.quote → prices.Nonneg →
      settings.costModel.assess u plan simulation prices = .ok a →
      (one ≤ settings.chain.gasAdjustment → simulation.gasEstimate ≤ a.gasLimit) ∧
      zero ≤ a.gasCost ∧
      (zero ≤ settings.trade.takerFeeBps →
        zero ≤ a.venueFee ∧ ∀ cost, a.cost = .ok cost → zero ≤ cost)) ∧
    ∀ (t : Trader) surroundings height s trace e s', t.settings = settings →
      (t.cycle height).Runs surroundings s trace (.ok (.executed e)) s' →
      ∃ venue coins there prices there' simulation there'' sent rest order swap a cost,
        trace = t.fetched venue coins there :: t.priced prices there' ::
          t.simulated e.plan simulation there'' :: sent :: rest ∧
        sent.calls = [.placeOrder order, .swap swap] ∧
        settings.costModel.assess t.listing.units e.plan simulation prices = .ok a ∧
        a.cost = .ok cost ∧ cost ≤ a.profit ∧ swap.gasLimit = a.gasLimit ∧
        swap.minOut = a.minOut ∧
        (one ≤ settings.chain.gasAdjustment → simulation.gasEstimate ≤ swap.gasLimit) ∧
        (prices.Nonneg → zero ≤ settings.trade.takerFeeBps → zero ≤ cost ∧ zero ≤ a.profit) := by
  have gasPrice : zero ≤ settings.costModel.gasPrice :=
    (Settings.valid_of_parse accepted).chain.gasPrice_nonneg
  constructor
  · intro u plan simulation prices a quote prices_nonneg assessed
    have assessed := CostModel.assess_eq_ok_iff.mp assessed
    have gas := assessed.gasCost_nonneg prices_nonneg gasPrice
    refine ⟨assessed.gasLimit_ge, gas, fun takerFee => ?_⟩
    have fee := assessed.venueFee_nonneg prices_nonneg quote takerFee
    exact ⟨fee, fun cost sum => Assessment.cost_nonneg sum gas fee⟩
  · rintro t surroundings height s trace e s' rfl run
    obtain ⟨nonempty, venue, coins, there, prices, there', simulation, there'', rest, rfl, order,
      swap, sent, rest, rfl, legs, verdict⟩ := weighed_of_executed run
    obtain ⟨a, cost, assessed, sum, covered, gas, out⟩ := assessed_of_verdict verdict
    have parts := CostModel.assess_eq_ok_iff.mp assessed
    refine ⟨venue, coins, there, prices, there', simulation, there'', sent, rest, order, swap, a,
      cost, rfl, legs, assessed, sum, covered, gas, out, ?_, fun prices_nonneg takerFee => ?_⟩
    · rw [gas]
      exact parts.gasLimit_ge
    · rw [Plan.isEmpty_iff, not_or, not_le, not_le] at nonempty
      have quote : zero ≤ e.plan.quote := le_iff_value.mpr (by simpa using nonempty.2.le)
      have nonneg := Assessment.cost_nonneg sum (parts.gasCost_nonneg prices_nonneg gasPrice)
        (parts.venueFee_nonneg prices_nonneg quote takerFee)
      exact ⟨nonneg, le_iff_value.mpr ((le_iff_value.mp nonneg).trans (le_iff_value.mp covered))⟩

/-! ### Two documents -/

/-- A document that gives its settings by position, among them the gas adjustment and the venue's
fee. -/
def costText (gasAdjustment takerFeeBps : String) : String :=
  "chain = [\"osmo1trader\", \"uusdc\", \"uosmo\", 6, \"0.1\", \"" ++ gasAdjustment ++ "\"]\n" ++
  "arbitrage = [\"60\", 5, \"10\", \"0.005\", \"" ++ takerFeeBps ++ "\", 10]\n" ++
  "assets = [[\"OSMO\", \"uosmo\", 6], [\"USDC\", \"uusdc\", 6]]\n" ++
  "pairs = [[\"OSMO\", \"USDC\"]]\n"

/-- The settings of the document. -/
def costSettings (gasAdjustment takerFeeBps : Decimal) : Settings where
  trade := { takerFeeBps := takerFeeBps }
  chain :=
    { accountAddress := "osmo1trader", usdDenom := "uusdc", gasAdjustment := gasAdjustment }
  assets := [⟨"OSMO", "uosmo", some 6, none⟩, ⟨"USDC", "uusdc", some 6, none⟩]
  pairSymbols := [⟨"OSMO", "USDC"⟩]

/-- The trader of the sample with the settings of the document. -/
def costTrader (gasAdjustment takerFeeBps : Decimal) : Trader :=
  { sampleTrader with settings := costSettings gasAdjustment takerFeeBps }

/-- The network of the sample with a swap that returns this much. -/
def returning (out : Decimal) : Network Unit :=
  { sampleNetwork with
    answer := fun
      | .simulate _ _, w => (w, .ok ⟨out, 200000⟩)
      | c, w => sampleNetwork.answer c w }

theorem runs_of_returning {out : Decimal} {scene : Scene (Unit × List Call)}
    (h : e ∈ executed? (advance (returning out).logged (t.cycle height) scene).2) :
    ∃ trace, (t.cycle height).Runs stillness scene.stores trace (.ok (.executed e))
      (advance (returning out).logged (t.cycle height) scene).1.stores := by
  have admits : stillness.Admits (returning out) Eq :=
    ⟨fun _ => rfl, fun _ _ _ => Eq.trans, fun _ _ same => same ▸ ⟨rfl, rfl⟩,
      fun _ unknown => ⟨unknown, fun _ => rfl⟩⟩
  obtain ⟨trace, runs, -⟩ := runs_of_finished admits (eq_finished_of_executed? h)
  exact ⟨trace, runs⟩

/-- With the default adjustment and fee a swap of sixty dollars is sent with more gas than its
estimate, and its profit covers a cost that is not negative. -/
theorem costs_covered_of_defaults :
    let t := costTrader (.ofWord 102 2) (.ofWord 10 0)
    Settings.parse (costText "1.02" "10") = .ok t.settings ∧
    one ≤ t.settings.chain.gasAdjustment ∧ zero ≤ t.settings.trade.takerFeeBps ∧ ∃ trace e s',
      (t.cycle 100).Runs stillness sampleStores trace (.ok (.executed e)) s' ∧
      ∃ venue coins there prices there' simulation there'' sent rest order swap a cost,
        trace = t.fetched venue coins there :: t.priced prices there' ::
          t.simulated e.plan simulation there'' :: sent :: rest ∧
        sent.calls = [.placeOrder order, .swap swap] ∧
        t.settings.costModel.assess t.listing.units e.plan simulation prices = .ok a ∧
        a.cost = .ok cost ∧ cost ≤ a.profit ∧ simulation.gasEstimate ≤ swap.gasLimit ∧
        (prices.Nonneg → zero ≤ cost ∧ zero ≤ a.profit) := by
  intro t
  obtain ⟨_, accepted, rfl⟩ := exists_eq_ok
    (x := Settings.parse (costText "1.02" "10")) (P := (· = t.settings)) (by decide +kernel)
  have adjustment : one ≤ t.settings.chain.gasAdjustment := by decide
  have fee : zero ≤ t.settings.trade.takerFeeBps := by decide
  obtain ⟨e, executed⟩ := Option.isSome_iff_exists.mp
    (show (executed? (advance (returning (.ofWord 60000000 0)).logged (t.cycle 100)
      ⟨sampleStores, ((), []), 0, 0, 0⟩).2).isSome by decide +kernel)
  obtain ⟨trace, run⟩ := runs_of_returning executed
  obtain ⟨venue, coins, there, prices, there', simulation, there'', sent, rest, order, swap, a,
    cost, began, legs, assessed, sum, covered, -, -, gas, nonneg⟩ :=
    (costs_covered accepted).2 t _ _ _ _ _ _ rfl run
  exact ⟨accepted, adjustment, fee, trace, e, _, run, venue, coins, there, prices, there',
    simulation, there'', sent, rest, order, swap, a, cost, began, legs, assessed, sum, covered,
    gas adjustment, fun prices_nonneg => nonneg prices_nonneg fee⟩

/-- With half of the estimate for gas, and a fee that pays ten thousand hundredths of a percent
back, a swap that loses money is sent with less gas than its estimate. -/
theorem costs_uncovered :
    let t := costTrader (.ofWord 5 1) ⟨true, 10000, 0, by decide, by decide⟩
    let prices : PriceSheet := ⟨one, one, one⟩
    let simulation : SwapSimulation := ⟨.ofWord 40000000 0, 200000⟩
    Settings.parse (costText "0.5" "-10000") = .ok t.settings ∧ prices.Nonneg ∧ ∃ trace e s' a cost,
      (t.cycle 100).Runs stillness sampleStores trace (.ok (.executed e)) s' ∧
      zero ≤ e.plan.quote ∧
      t.settings.costModel.assess t.listing.units e.plan simulation prices = .ok a ∧
      a.cost = .ok cost ∧ ¬ simulation.gasEstimate ≤ a.gasLimit ∧ ¬ zero ≤ cost ∧
      ¬ zero ≤ a.profit := by
  intro t prices simulation
  obtain ⟨_, accepted, rfl⟩ := exists_eq_ok
    (x := Settings.parse (costText "0.5" "-10000")) (P := (· = t.settings)) (by decide +kernel)
  obtain ⟨e, executed, quote, assessed⟩ : ∃ e ∈ executed? (advance
      (returning (.ofWord 40000000 0)).logged (t.cycle 100)
      ⟨sampleStores, ((), []), 0, 0, 0⟩).2, zero ≤ e.plan.quote ∧
      ∃ a ∈ (t.settings.costModel.assess t.listing.units e.plan simulation prices).toOption,
        ∃ cost ∈ a.cost.toOption,
          ¬ simulation.gasEstimate ≤ a.gasLimit ∧ ¬ zero ≤ cost ∧ ¬ zero ≤ a.profit := by
    decide +kernel
  obtain ⟨a, cost, assessed, sum, understated⟩ := exists_both_eq_ok assessed
  obtain ⟨trace, run⟩ := runs_of_returning executed
  exact ⟨accepted, ⟨by decide, by decide, by decide⟩, trace, e, _, a, cost, run, quote, assessed,
    sum, understated⟩

end CrossBook.Engine.Trader
