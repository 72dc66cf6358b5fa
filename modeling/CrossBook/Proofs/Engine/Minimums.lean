import CrossBook.Proofs.Engine.Histories
import CrossBook.Proofs.Engine.Spending

/-!
# What an order amounts to

Minimums are compared with a plan in native units, before the order is written in human units with
the places the venue takes. So an order reaches each minimum as far as the minimum itself can be
written in whole native units and with those places. A minimum with more places may be missed by
what they are worth, and an order may even come to nothing.

## Main definitions

* `Engine.Listing.Follows` — a listing that was found, and the minimums the venue published for it

## Main results

* `Engine.Trader.Funded.reaches` — an order reaches its minimums
* `Engine.Session.orders_reach_minimums` — so does every order of a listed pair
-/

namespace CrossBook.Engine

open Trade Decimal

variable {σ : Type} {net : Network σ}

/-! ### Listings -/

namespace Listing

/-- The venue answers what it publishes of the instrument of a pair. -/
def Publishes (net : Network σ) (p : Pair) (m : InstrumentMinimums) : Prop :=
  ∃ scene scene', inquire net (.venueMinimums p.venueSymbol) scene = (.ok m, scene')

/-- The listing of a pair keeps the minimums in native units, of which the least fill of the base
asset comes before the venue's, and the places the venue takes. -/
structure Follows (l : Listing) (p : Pair) (m : InstrumentMinimums) : Prop where
  pair_eq : l.pair = p
  minBase_eq : nativeOf l.units.base (p.base.minFill <|> m.base) = .ok l.minBase
  minQuote_eq : nativeOf l.units.quote m.quote = .ok l.minQuote
  basePlaces_eq : l.basePlaces = m.basePlaces
  quotePlaces_eq : l.quotePlaces = m.quotePlaces

theorem inquiry_bind {α β : Type} {x : Inquiry σ α} {f : α → Inquiry σ β} (scene : Scene σ) :
    (x >>= f) scene = match x scene with
      | (.ok a, s) => f a s
      | (.error e, s) => (.error e, s) := by
  simp only [bind, ExceptT.bind, ExceptT.mk, StateT.bind]
  rcases x scene with ⟨_ | a, s⟩ <;> rfl

theorem inquiry_bind_eq_ok {α β : Type} {x : Inquiry σ α} {f : α → Inquiry σ β}
    {scene scene' : Scene σ} {b : β} (h : (x >>= f) scene = (.ok b, scene')) :
    ∃ a scene₁, x scene = (.ok a, scene₁) ∧ f a scene₁ = (.ok b, scene') := by
  rw [inquiry_bind] at h
  rcases result : x scene with ⟨_ | a, s⟩ <;> simp only [result] at h
  · cases (Prod.mk.inj h).1
  · exact ⟨a, s, rfl, h⟩

theorem inquiry_lift_eq_ok {α : Type} {x : Except Failure α} {scene scene' : Scene σ} {a : α}
    (h : (liftM x : Inquiry σ α) scene = (.ok a, scene')) : x = .ok a :=
  (Prod.mk.inj h).1

theorem find_follows {p : Pair} {l : Listing} {scene scene' : Scene σ}
    (h : find net p scene = (.ok l, scene')) : ∃ m, Publishes net p m ∧ l.Follows p m := by
  obtain ⟨baseDecimals, _, -, h⟩ := inquiry_bind_eq_ok h
  obtain ⟨quoteDecimals, _, -, h⟩ := inquiry_bind_eq_ok h
  obtain ⟨address, s₁, -, h⟩ := inquiry_bind_eq_ok h
  obtain ⟨minimums, s₂, answered, h⟩ := inquiry_bind_eq_ok h
  obtain ⟨minBase, _, base, h⟩ := inquiry_bind_eq_ok h
  obtain ⟨minQuote, _, quote, h⟩ := inquiry_bind_eq_ok h
  obtain rfl := Except.ok.inj (Prod.mk.inj h).1
  exact ⟨minimums, ⟨s₁, s₂, answered⟩, rfl, inquiry_lift_eq_ok base, inquiry_lift_eq_ok quote, rfl,
    rfl⟩

end Listing

theorem Session.findAll_follows {pairs : List Pair} {found : List Listing} {scene scene' : Scene σ}
    (h : findAll net pairs scene = (.ok found, scene')) :
    ∀ l ∈ found, ∃ m, Listing.Publishes net l.pair m ∧ l.Follows l.pair m := by
  induction pairs generalizing found scene scene' with
  | nil =>
    obtain rfl := Except.ok.inj (Prod.mk.inj h).1
    simp
  | cons p pairs ih =>
    obtain ⟨l, _, first, h⟩ := Listing.inquiry_bind_eq_ok h
    obtain ⟨rest, _, others, h⟩ := Listing.inquiry_bind_eq_ok h
    obtain rfl := Except.ok.inj (Prod.mk.inj h).1
    intro l' among
    rcases List.mem_cons.mp among with rfl | later
    · obtain ⟨m, published, follows⟩ := Listing.find_follows first
      rw [follows.pair_eq]
      exact ⟨m, published, follows⟩
    · exact ih others l' later

/-! ### Orders -/

namespace Trader

variable {t : Trader} {venue : Table String Decimal} {coins : List Coin} {p : Plan}
  {order : MarketOrder} {swap : SwapRequest} {m : InstrumentMinimums}

/-- A plan without a shortfall reaches its minimums in native units. -/
theorem shortfall_eq_none {prices : PriceSheet} (h : t.shortfall p prices = .ok none) :
    (∀ least ∈ t.listing.minBase, least.value ≤ p.base.value) ∧
      (p.direction = .chainBid → ∀ least ∈ t.listing.minQuote, least.value ≤ p.quote.value) := by
  obtain ⟨minimum, found, h⟩ := bind_eq_ok.mp h
  split_ifs at h with enough
  · have base : minimum ≤ p.base := by simpa [meets] using enough
    constructor
    · intro least given
      rw [minimumBase, Option.mem_def.mp given] at found
      obtain rfl := Except.ok.inj found
      exact le_iff_value.mp base
    · intro direction least given
      rw [direction, Option.mem_def.mp given] at h
      dsimp only at h
      split_ifs at h with enough
      · exact le_iff_value.mp (by simpa [meets] using enough)
      · cases Except.ok.inj h
  · cases Except.ok.inj h

theorem withPlaces_nonneg {d : Decimal} (h : 0 ≤ d.value) (places : Option Nat) :
    0 ≤ (withPlaces places d).value := by
  cases places with
  | none => exact h
  | some n => exact truncTo_nonneg h n

theorem withPlaces_mono {a b : Decimal} (le : a.value ≤ b.value)
    (places : Option Nat) : (withPlaces places a).value ≤ (withPlaces places b).value := by
  cases places with
  | none => exact le
  | some n => exact truncTo_mono le n

/-- Dropping places makes no difference to a decimal that does not have them. -/
theorem withPlaces_eq_self {d : Decimal} {places : Option Nat}
    (h : ∀ n ∈ places, d.scale ≤ n) : withPlaces places d = d := by
  cases places with
  | none => rfl
  | some n => exact truncTo_eq_self (h n rfl)

/-- Native units that reach those of a minimum are written as a quantity that reaches it, as far as
it can be written in whole units and with these places. -/
theorem withPlaces_reaches {decimals : Nat} {places : Option Nat} {minimum amount quantity : Decimal}
    {native : Option Decimal} (kept : Listing.nativeOf decimals (some minimum) = .ok native)
    (back : Amount.toHuman amount decimals = .ok quantity) (le : decimals ≤ 28)
    (positive : 0 < amount.value) (reached : ∀ least ∈ native, least.value ≤ amount.value) :
    withPlaces places (minimum.truncTo decimals) ≤ withPlaces places quantity := by
  obtain ⟨least, shifted, rfl⟩ : ∃ least, Amount.toNative minimum decimals = .ok least ∧
      native = some least := by
    rw [Listing.nativeOf] at kept
    cases shifted : Amount.toNative minimum decimals with
    | error f => rw [shifted] at kept; cases kept
    | ok least => rw [shifted] at kept; exact ⟨least, rfl, (Except.ok.inj kept).symm⟩
  exact le_iff_value.mpr (withPlaces_mono
    (Amount.truncTo_le_toHuman shifted back le positive.le (reached least rfl)) places)

/-- What is sent of a funded plan that is not empty. The order reaches its minimums as far as they
can be written, and the swap spends base, or whole units of quote. -/
structure Reaches (t : Trader) (m : InstrumentMinimums) (order : MarketOrder)
    (swap : SwapRequest) : Prop where
  quantity_nonneg : Decimal.zero ≤ order.quantity
  coinIn_nonneg : Decimal.zero ≤ swap.coinIn.amount
  coinIn_pos : order.kind = .buy → Decimal.zero < swap.coinIn.amount
  buy : order.kind = .buy → ∀ minimum ∈ m.quote,
    withPlaces m.quotePlaces (minimum.truncTo t.listing.units.quote) ≤ order.quantity
  sell : order.kind = .sell → ∀ minimum ∈ (t.listing.pair.base.minFill <|> m.base),
    withPlaces m.basePlaces (minimum.truncTo t.listing.units.base) ≤ order.quantity

theorem Funded.reaches (funded : t.Funded venue coins p) (decision : Decision t p order swap)
    (follows : t.listing.Follows t.listing.pair m) (base_le : t.listing.units.base ≤ 28)
    (quote_le : t.listing.units.quote ≤ 28) : t.Reaches m order swap := by
  obtain ⟨balances, plan, -, consistent, fund⟩ := funded
  have covered := consistent.fund fund
  have nonempty := decision.nonempty
  rw [Plan.isEmpty_iff, not_or, not_le, not_le] at nonempty
  obtain ⟨prices, simulation, enough, verdict⟩ := decision.weighed
  obtain ⟨baseEnough, quoteEnough⟩ := shortfall_eq_none enough
  obtain ⟨ordered, coinIn⟩ := verdict_eq_trade verdict
  have written {decimals : Nat} {amount quantity : Decimal} (le : decimals ≤ 28)
      (positive : 0 < amount.value) (back : Amount.toHuman amount decimals = .ok quantity)
      (places : Option Nat) : Decimal.zero ≤ withPlaces places quantity := by
    rw [le_iff_value, value_zero]
    exact withPlaces_nonneg ((Amount.roundsTo_of_toHuman back le).nonneg (by positivity)) places
  cases direction : p.direction <;> rw [venueOrder, direction] at ordered <;>
    obtain ⟨quantity, human, ordered⟩ := bind_eq_ok.mp ordered <;>
    obtain rfl := Except.ok.inj ordered <;>
    rw [swapLeg, direction] at coinIn
  · -- a purchase spends quote on the venue and base on the chain
    have spent : 0 < swap.coinIn.amount.value := by rw [coinIn]; exact nonempty.1
    refine ⟨written quote_le nonempty.2 human _, ?_, fun _ => ?_, fun _ minimum published => ?_,
      by rintro ⟨⟩⟩
    · rw [le_iff_value, value_zero]
      exact spent.le
    · rw [lt_iff_value, value_zero]
      exact spent
    · have kept := follows.minQuote_eq
      rw [Option.mem_def.mp published] at kept
      dsimp only
      rw [follows.quotePlaces_eq]
      exact withPlaces_reaches kept human quote_le nonempty.2 (quoteEnough direction)
  · refine ⟨written base_le nonempty.1 human _, ?_, by rintro ⟨⟩, by rintro ⟨⟩,
      fun _ minimum given => ?_⟩
    · rw [coinIn, le_iff_value, value_zero]
      exact covered.chainQuote_nonneg
    · have kept := follows.minBase_eq
      rw [Option.mem_def.mp given] at kept
      dsimp only
      rw [follows.basePlaces_eq]
      exact withPlaces_reaches kept human base_le nonempty.1 baseEnough

/-- A minimum that can be written in whole units and with the places the venue takes is reached. -/
theorem Reaches.minimum_le (h : t.Reaches m order swap) {minimum : Decimal} :
    (order.kind = .buy → minimum ∈ m.quote → minimum.scale ≤ t.listing.units.quote →
      (∀ n ∈ m.quotePlaces, minimum.scale ≤ n) → minimum ≤ order.quantity) ∧
    (order.kind = .sell → minimum ∈ (t.listing.pair.base.minFill <|> m.base) →
      minimum.scale ≤ t.listing.units.base → (∀ n ∈ m.basePlaces, minimum.scale ≤ n) →
      minimum ≤ order.quantity) := by
  refine ⟨fun buys published whole places => ?_, fun sells given whole places => ?_⟩
  · have reached := h.buy buys minimum published
    rwa [truncTo_eq_self whole, withPlaces_eq_self places] at reached
  · have reached := h.sell sells minimum given
    rwa [truncTo_eq_self whole, withPlaces_eq_self places] at reached

end Trader

namespace Session

variable {s s₀ : Session σ} {settings : Settings}

theorem traders_follow (listed : s.list settings = (s₀, .ok ())) : ∀ t ∈ s₀.traders,
    ∃ m, Listing.Publishes s₀.network t.listing.pair m ∧
      t.listing.Follows t.listing.pair m := by
  obtain ⟨_, listings, scene, -, all, rfl⟩ := list_eq_ok_iff.mp listed
  intro t among
  have found : t.listing ∈ listings := by
    rw [← listings_tradersOf settings listings]
    exact List.mem_map_of_mem among
  exact findAll_follows all t.listing found

/-- Of each pair that was listed the venue published minimums, and whatever is sent of the pair
reaches them. In every cycle that trades, the order and the swap spend no negative amount, and a
purchase on the venue swaps some base. The order is not below the minimum for what it spends, less
the places of that minimum that cannot be written in whole native units or are not taken by the
venue; so it is not below a minimum that has no such places. -/
theorem orders_reach_minimums (listed : s.list settings = (s₀, .ok ())) : ∀ t ∈ s₀.traders,
    ∃ m, Listing.Publishes s₀.network t.listing.pair m ∧
      ∀ surroundings Kept height stores trace e stores', t.Undisturbed surroundings Kept →
        t.listing.units.base ≤ 28 → t.listing.units.quote ≤ 28 →
        (t.cycle height).Runs surroundings stores trace (.ok (.executed e)) stores' →
        ∃ order swap message, commitments trace =
            [.placeOrder order, .swap swap, .execute t.listing.address.contract message] ∧
          t.Reaches m order swap ∧ ∀ minimum,
            (order.kind = .buy → minimum ∈ m.quote → minimum.scale ≤ t.listing.units.quote →
              (∀ n ∈ m.quotePlaces, minimum.scale ≤ n) → minimum ≤ order.quantity) ∧
            (order.kind = .sell → minimum ∈ (t.listing.pair.base.minFill <|> m.base) →
              minimum.scale ≤ t.listing.units.base → (∀ n ∈ m.basePlaces, minimum.scale ≤ n) →
              minimum ≤ order.quantity) := by
  intro t among
  obtain ⟨m, published, follows⟩ := traders_follow listed t among
  refine ⟨m, published, ?_⟩
  intro surroundings Kept height stores trace e stores' undisturbed base_le quote_le run
  rcases Trader.runs_cycle undisturbed run with
    quiet | ⟨_, _, _, _, p, order, swap, -, funded, decision, trading⟩
  · exact absurd rfl (quiet.untraded e)
  · have reaches := funded.reaches decision follows base_le quote_le
    exact ⟨order, swap, _, trading.sent, reaches, fun _ => reaches.minimum_le⟩

/-! ### A venue with minimums -/

/-- The sample network, on which the pair is listed with some minimums. -/
def exactingNetwork (m : InstrumentMinimums) : Network Unit :=
  { Trader.sampleNetwork with
    answer := fun
      | .orderBook _ _, w => (w, .ok ⟨1, "book"⟩)
      | .venueMinimums _, w => (w, .ok m)
      | c, w => Trader.sampleNetwork.answer c w }

/-- The session that trades the pair there. -/
def exactingSession (m : InstrumentMinimums) : Session Unit :=
  ((unlisted (exactingNetwork m) () []).list onePair).1

/-- A least quantity of ten and a half, with two places for quantities. -/
def fineMinimums : InstrumentMinimums := { quote := some (.ofWord 105 1), quotePlaces := some 2 }

theorem exactingSession_trades : ∃ t ∈ (exactingSession fineMinimums).traders, ∃ trace e s',
    (t.cycle 100).Runs Trader.stillness Trader.sampleStores trace (.ok (.executed e)) s' ∧
      t.listing.units = ⟨6, 6⟩ := by
  obtain ⟨t, among, units, trades⟩ : ∃ t ∈ (exactingSession fineMinimums).traders,
      t.listing.units = ⟨6, 6⟩ ∧
      (Trader.executed? (advance Trader.sampleNetwork.logged (t.cycle 100)
        ⟨Trader.sampleStores, ((), []), 0, 0, 0⟩).2).isSome = true := by
    decide +kernel
  obtain ⟨e, executed⟩ := Option.isSome_iff_exists.mp trades
  obtain ⟨trace, runs, -⟩ :=
    runs_of_finished Trader.stillness_admits (Trader.eq_finished_of_executed? executed)
  exact ⟨t, among, trace, e, _, runs, units⟩

/-- The order is not below the least quantity, which has no more places than the venue takes. -/
theorem orders_reach_minimums_of_exactingSession :
    (unlisted (exactingNetwork fineMinimums) () []).list onePair =
      (exactingSession fineMinimums, .ok ()) ∧
    ∃ t ∈ (exactingSession fineMinimums).traders, ∃ trace e s',
      (t.cycle 100).Runs Trader.stillness Trader.sampleStores trace (.ok (.executed e)) s' ∧
      6 ≤ 28 ∧ ∃ order swap message, commitments trace =
          [.placeOrder order, .swap swap, .execute t.listing.address.contract message] ∧
        (order.kind = .buy → .ofWord 105 1 ≤ order.quantity) := by
  have listed : (unlisted (exactingNetwork fineMinimums) () []).list onePair =
    (exactingSession fineMinimums, .ok ()) := rfl
  obtain ⟨t, among, trace, e, s', run, units⟩ := exactingSession_trades
  obtain ⟨m, ⟨scene, scene', published⟩, reach⟩ := orders_reach_minimums listed t among
  obtain rfl := Except.ok.inj (Prod.mk.inj published).1
  obtain ⟨order, swap, message, sent, -, reached⟩ :=
    reach _ _ 100 _ _ e _ (Trader.undisturbed_of_stillness t) (by rw [units]; decide)
      (by rw [units]; decide) run
  refine ⟨listed, t, among, trace, e, s', run, by decide, order, swap, message, sent, fun buys => ?_⟩
  refine (reached _).1 buys rfl (by rw [units]; decide) ?_
  rintro n ⟨⟩
  decide

/-- A least quantity with a place, and no places for quantities. -/
def coarseMinimums : InstrumentMinimums := { quote := some (.ofWord 462 1), quotePlaces := some 0 }

/-- The stores of the sample with a dearer level at the venue. -/
def dearerStores : Stores :=
  { Trader.sampleStores with
    shelf := .ofList [("OSMOUSDC", ⟨"OSMOUSDC", [], [⟨.ofWord 155 2, .ofWord 100 0⟩]⟩)] }

/-- A plan that spends forty-six and a half is above the least quantity of forty-six and a fifth,
but the order is written without places. -/
theorem order_below_minimum :
    (unlisted (exactingNetwork coarseMinimums) () []).list onePair =
      (exactingSession coarseMinimums, .ok ()) ∧
    ∃ t ∈ (exactingSession coarseMinimums).traders, ∃ trace e s',
      (t.cycle 100).Runs Trader.stillness dearerStores trace (.ok (.executed e)) s' ∧
      .placeOrder ⟨"OSMOUSDC", .buy, .ofWord 46 0⟩ ∈ asked trace ∧
      ¬ .ofWord 462 1 ≤ Decimal.ofWord 46 0 := by
  refine ⟨rfl, ?_⟩
  obtain ⟨t, among, trades, placed⟩ : ∃ t ∈ (exactingSession coarseMinimums).traders,
      (Trader.executed? (advance Trader.sampleNetwork.logged (t.cycle 100)
        ⟨dearerStores, ((), []), 0, 0, 0⟩).2).isSome = true ∧
      .placeOrder ⟨"OSMOUSDC", .buy, .ofWord 46 0⟩ ∈
        (advance Trader.sampleNetwork.logged (t.cycle 100)
          ⟨dearerStores, ((), []), 0, 0, 0⟩).1.world.2 := by
    decide +kernel
  obtain ⟨e, executed⟩ := Option.isSome_iff_exists.mp trades
  obtain ⟨trace, runs, logged⟩ :=
    runs_of_finished Trader.stillness_admits (Trader.eq_finished_of_executed? executed)
  rw [logged, List.nil_append] at placed
  exact ⟨t, among, trace, e, _, runs, runs.reached_subperm.subset placed, by decide⟩

end Session

end CrossBook.Engine
