import CrossBook.Proofs.Engine.Likeness

/-!
# The same pair in two sessions

A pair that is listed at another place, next to the same pairs, has another ledger. Its cycle is
alike all the same: it decides and calls alike, and its outcome differs by the numbers of references
at most.

## Main definitions

* `Engine.Trader.relisted` — the trader of the pair at another place
* `Engine.Outcome.unnumbered` — an outcome without the numbers of its references
* `Engine.Trader.SeesAlike` — all that two traders of a pair see of the stores is the same

## Main results

* `Engine.Trader.alike_takeOff` — the cycles of the two are alike
* `Engine.OrderBookAddress.alike_load` — pools are always read alike
-/

namespace CrossBook.Engine

open Trade Program

/-! ### Outcomes without numbers -/

/-- A leg without the number of its reference. -/
def LegOutcome.unnumbered : LegOutcome → LegOutcome
  | .filled reference => .filled (Engine.unnumbered reference)
  | .failed error => .failed error

/-- Both legs without the numbers of their references. -/
def Legs.unnumbered (l : Legs) : Legs := ⟨l.venue.unnumbered, l.chain.unnumbered⟩

/-- What became of claims, without the number of the transaction. -/
def ClaimFlush.unnumbered : ClaimFlush → ClaimFlush
  | .nothing => .nothing
  | .submitted count hash => .submitted count (Engine.unnumbered hash)
  | .failed count error => .failed count error

/-- An outcome without the numbers of its references. -/
def Outcome.unnumbered : Outcome → Outcome
  | .executed e =>
    .executed { e with legs := e.legs.unnumbered, claims := e.claims.unnumbered }
  | .coolingDown blocked => .coolingDown blocked
  | .skipped reason => .skipped reason
  | .aborted severity reason => .aborted severity reason

/-- The outcome of a pair without the numbers of its references. -/
def PairOutcome.unnumbered (o : PairOutcome) : PairOutcome :=
  { o with outcome := o.outcome.unnumbered }

namespace Trader

/-! ### Traders of one pair -/

/-- The trader of a pair that is listed at another place among other entries. -/
def relisted (t : Trader) (number : Nat) (entries : List PairSymbols) : Trader :=
  { t with ledger := number, settings := { t.settings with pairSymbols := entries } }

/-- All that two traders of one pair see of the stores is the same. -/
structure SeesAlike (t t₀ : Trader) (s s₀ : Stores) : Prop where
  shelf : s.shelf = s₀.shelf
  pools : ∀ pool, s.pools.get? pool = s₀.pools.get? pool
  cooldown : s.cooldowns.get? t.name = s₀.cooldowns.get? t₀.name
  ledger : s.ledger t.ledger = s₀.ledger t₀.ledger

/-- Two traders of one pair, of which the first is confined to what is its own. -/
def kin (t t₀ : Trader) : Kinship Ending where
  Sees := t.SeesAlike t₀
  Guarantees := t.Confined
  Agrees e e₀ := e.map Outcome.unnumbered = e₀.map Outcome.unnumbered
  guarantees_refl := Confined.refl t
  guarantees_trans := Confined.trans

variable {t t₀ : Trader} {s s₀ : Stores} {height : Nat}

theorem ledger_modifyLedger (s : Stores) (number : Nat) (f : Ledger → Ledger) :
    (s.modifyLedger number f).ledger number = f (s.ledger number) := by
  simp [Stores.modifyLedger, Stores.ledger]

theorem SeesAlike.modifyLedger (h : t.SeesAlike t₀ s s₀) (f : Ledger → Ledger) :
    t.SeesAlike t₀ (s.modifyLedger t.ledger f) (s₀.modifyLedger t₀.ledger f) where
  shelf := h.shelf
  pools := h.pools
  cooldown := h.cooldown
  ledger := by rw [ledger_modifyLedger, ledger_modifyLedger, h.ledger]

theorem SeesAlike.rest (h : t.SeesAlike t₀ s s₀) (until_ : Nat) :
    t.SeesAlike t₀ (s.rest t.name until_) (s₀.rest t₀.name until_) where
  shelf := h.shelf
  pools := h.pools
  cooldown := by simp [Stores.rest, Cooldowns.blockUntil]
  ledger := h.ledger

/-! ### Cycles

The lemmas follow the course of a cycle from the end to the beginning. -/

theorem alike_modifyLedger {n : Nat} {f : Ledger → Ledger} {p p₀ : Program Ending n}
    (alike : p.Alike (t.kin t₀) p₀) :
    (Program.change (·.modifyLedger t.ledger f) p).Alike (t.kin t₀)
      (.change (·.modifyLedger t₀.ledger f) p₀) :=
  .change (fun s => t.confined_modifyLedger f s) (fun _ _ sees => sees.modifyLedger f) alike

theorem alike_finish (o : Outcome) {n : Nat} :
    (t.finish o (n := n)).Alike (t.kin t₀) (t₀.finish o) :=
  alike_modifyLedger (.done rfl)

theorem alike_call {n : Nat} {c : Call} {k k₀ : c.Result → Program Ending n}
    (alike : ∀ r r₀, c.ResultsAlike r r₀ → (k r).Alike (t.kin t₀) (k₀ r₀)) :
    (call c k).Alike (t.kin t₀) (call c k₀) := by
  refine .ask ?_
  rintro _ _ (_ | ⟨first, _ | _⟩)
  exact alike _ _ first

section Cycles

variable {number : Nat} {entries : List PairSymbols}

theorem alike_fail (f : Failure) {n : Nat} :
    ((t.relisted number entries).fail height f (n := n)).Alike ((t.relisted number entries).kin t)
      (t.fail height f) := by
  cases f with
  | abort a => exact .done rfl
  | error e =>
    rw [fail, fail]
    split_ifs
    · exact .done rfl
    · exact alike_finish _

theorem alike_close (p : Plan) {legs legs₀ : Legs} {flush flush₀ : ClaimFlush} {n : Nat}
    (same : legs.unnumbered = legs₀.unnumbered) (flushed : flush.unnumbered = flush₀.unnumbered) :
    ((t.relisted number entries).close height p legs flush (n := n)).Alike
      ((t.relisted number entries).kin t) (t.close height p legs₀ flush₀) := by
  rw [close, close, show (t.relisted number entries).cooldownUntil height = t.cooldownUntil height
    from rfl]
  cases t.cooldownUntil height with
  | error f => exact alike_fail f
  | ok until_ =>
    refine .change (fun s => (t.relisted number entries).confined_rest until_ s)
      (fun _ _ sees => sees.rest until_) (.done (congrArg Except.ok ?_))
    rw [Outcome.unnumbered, Outcome.unnumbered, same, flushed]

/-- Two receipts that differ by the numbers of their hashes tell the same of a transaction. -/
theorem receipts_alike {r r₀ : Receipt}
    (h : { r with hash := Engine.unnumbered r.hash } =
      { r₀ with hash := Engine.unnumbered r₀.hash }) (count : Nat) :
    (flushed count (.ok r)).unnumbered = (flushed count (.ok r₀)).unnumbered ∧
      (chainLeg (.ok r)).unnumbered = (chainLeg (.ok r₀)).unnumbered := by
  obtain ⟨hash, code, log⟩ := Receipt.mk.inj h
  simp only [flushed, chainLeg, Receipt.isSuccess, code, log, decide_eq_true_eq]
  by_cases success : r₀.code = 0
  · simp only [if_pos success]
    exact ⟨congrArg (ClaimFlush.submitted count) hash, congrArg LegOutcome.filled hash⟩
  · simp only [if_neg success, and_self]

theorem unnumbered_flushed {contract message : String}
    {r r₀ : Call.Result (.execute contract message)}
    (h : Call.ResultsAlike (.execute contract message) r r₀) (count : Nat) :
    (flushed count r).unnumbered = (flushed count r₀).unnumbered := by
  cases h with
  | error e => rfl
  | ok alike => exact (receipts_alike alike count).1

theorem unnumbered_venueLeg {order : MarketOrder} {r r₀ : Call.Result (.placeOrder order)}
    (h : Call.ResultsAlike (.placeOrder order) r r₀) :
    (venueLeg r).unnumbered = (venueLeg r₀).unnumbered := by
  cases h with
  | error e => rfl
  | ok alike => exact congrArg LegOutcome.filled alike

theorem unnumbered_chainLeg {request : SwapRequest} {r r₀ : Call.Result (.swap request)}
    (h : Call.ResultsAlike (.swap request) r r₀) :
    (chainLeg r).unnumbered = (chainLeg r₀).unnumbered := by
  cases h with
  | error e => rfl
  | ok alike => exact (receipts_alike alike 0).2

theorem alike_claim (p : Plan) {legs legs₀ : Legs} (same : legs.unnumbered = legs₀.unnumbered) :
    ((t.relisted number entries).claim height p legs).Alike ((t.relisted number entries).kin t)
      (t.claim height p legs₀) := by
  refine .look fun s s₀ sees => ?_
  rw [sees.ledger]
  refine alike_modifyLedger ?_
  split_ifs
  · exact alike_close p same rfl
  · exact alike_call fun r r₀ alike => alike_close p same (unnumbered_flushed alike _)

theorem alike_send (p : Plan) (order : MarketOrder) (swap : SwapRequest) :
    ((t.relisted number entries).send height p order swap).Alike
      ((t.relisted number entries).kin t) (t.send height p order swap) := by
  refine .ask ?_
  rintro _ _ (_ | ⟨venue, _ | ⟨chain, _ | _⟩⟩)
  exact alike_claim p (congrArg₂ Legs.mk (unnumbered_venueLeg venue) (unnumbered_chainLeg chain))

theorem alike_weigh (p : Plan) (prices : PriceSheet) (simulation : SwapSimulation) :
    ((t.relisted number entries).weigh height p prices simulation).Alike
      ((t.relisted number entries).kin t) (t.weigh height p prices simulation) := by
  rw [weigh, weigh, show (t.relisted number entries).verdict p prices simulation =
    t.verdict p prices simulation from rfl]
  rcases t.verdict p prices simulation with f | _ | _ <;> rw [act, act]
  · exact alike_fail f
  · exact alike_finish _
  · exact alike_send p _ _

theorem alike_simulate (p : Plan) (prices : PriceSheet) :
    ((t.relisted number entries).simulate height p prices).Alike
      ((t.relisted number entries).kin t) (t.simulate height p prices) := by
  rw [simulate, simulate, show (t.relisted number entries).shortfall p prices =
    t.shortfall p prices from rfl]
  rcases t.shortfall p prices with f | _ | _ <;> rw [simulateUnless, simulateUnless]
  · exact alike_fail f
  · refine alike_call ?_
    intro r r₀ alike
    cases alike with
    | error e => exact alike_fail (.error e)
    | @ok simulation simulation₀ same =>
      obtain rfl : simulation = simulation₀ := same
      exact alike_weigh p prices simulation
  · exact alike_finish _

theorem alike_fetchPrices (p : Plan) :
    ((t.relisted number entries).fetchPrices height p).Alike ((t.relisted number entries).kin t)
      (t.fetchPrices height p) := by
  refine .ask ?_
  rintro (e | ⟨_ | ⟨base, _ | ⟨quote, _ | ⟨fee, _ | _⟩⟩⟩⟩) (e₀ | prices₀) alike
  · obtain rfl := alike
    exact alike_fail (.error e)
  · cases alike
  · cases alike
  · have alike : Answers.Alike Call.RepliesAlike _ _ := alike
    obtain _ | ⟨first, _ | ⟨second, _ | ⟨third, _ | _⟩⟩⟩ := alike
    obtain rfl : base = _ := first
    obtain rfl : quote = _ := second
    obtain rfl : fee = _ := third
    exact alike_simulate p _

theorem prospect_relisted {venue : Table String Decimal} {coins : List Coin}
    (sees : (t.relisted number entries).SeesAlike t s s₀) :
    (t.relisted number entries).prospect s venue coins = t.prospect s₀ venue coins := by
  unfold prospect
  dsimp only
  rw [sees.shelf, sees.pools]
  rfl

theorem alike_compare (venue : Table String Decimal) (coins : List Coin) :
    ((t.relisted number entries).compare height venue coins).Alike
      ((t.relisted number entries).kin t) (t.compare height venue coins) := by
  refine .look fun s s₀ sees => ?_
  rw [prospect_relisted sees]
  rcases t.prospect s₀ venue coins with f | _ | _ | p <;> rw [takeUp, takeUp]
  · exact alike_fail f
  · exact alike_finish _
  · exact alike_finish _
  · refine alike_modifyLedger ?_
    split_ifs
    · exact alike_finish _
    · exact alike_fetchPrices p

theorem alike_cycle :
    ((t.relisted number entries).cycle height).Alike ((t.relisted number entries).kin t)
      (t.cycle height) := by
  refine .look fun s s₀ sees => ?_
  have rests : s.cooldowns.blockedUntil (t.relisted number entries).name height =
      s₀.cooldowns.blockedUntil t.name height := by
    rw [Cooldowns.blockedUntil, sees.cooldown]
    rfl
  rw [rests]
  rcases s₀.cooldowns.blockedUntil t.name height with _ | blocked
  · refine .ask ?_
    rintro (e | ⟨_ | ⟨venue, _ | ⟨coins, _ | _⟩⟩⟩) (e₀ | balances₀) alike
    · obtain rfl := alike
      exact alike_fail (.error e)
    · cases alike
    · cases alike
    · have alike : Answers.Alike Call.RepliesAlike _ _ := alike
      obtain _ | ⟨first, _ | ⟨second, _ | _⟩⟩ := alike
      obtain rfl : venue = _ := first
      obtain rfl : coins = _ := second
      exact alike_compare _ _
  · exact alike_finish _

end Cycles

/-- Two traders of one pair, of which the first is confined to what is its own, and their landings,
which differ by the numbers of references at most. -/
def landingKin (t t₀ : Trader) : Kinship Landing :=
  (t.kin t₀).withValues fun l l₀ => l.pair = l₀.pair ∧
    l.ending.map Outcome.unnumbered = l₀.ending.map Outcome.unnumbered

/-- The cycles of a pair that is listed at another place are alike. -/
theorem alike_takeOff (t : Trader) (number : Nat) (entries : List PairSymbols) (height : Nat) :
    ((t.relisted number entries).takeOff height).Alike ((t.relisted number entries).landingKin t)
      (t.takeOff height) :=
  alike_cycle.map fun _ _ agree => ⟨rfl, agree⟩

end Trader

/-! ### Pools -/

/-- Pools are read without a look at the stores, which are left as they are. -/
def loadKin : Kinship Load where
  Sees _ _ := True
  Guarantees := Eq
  Agrees := Eq
  guarantees_refl _ := rfl
  guarantees_trans := Eq.trans

theorem ordersRead_of_alike {contract : String} {ticks : List Int}
    {results results₀ : Answers Call.Result (ticks.map (Call.restingOrders contract))}
    (h : Answers.Alike Call.ResultsAlike results results₀) :
    ordersRead contract ticks results = ordersRead contract ticks results₀ := by
  induction ticks with
  | nil =>
    cases h
    rfl
  | cons tick ticks ih =>
    cases h with
    | cons first others =>
      cases first with
      | error e => exact ih others
      | @ok orders orders₀ same =>
        obtain rfl : orders = orders₀ := same
        exact congrArg (List.append _) (ih others)

/-- Pools are always read alike. -/
theorem OrderBookAddress.alike_load (a : OrderBookAddress) (height : Nat) :
    (a.load height).Alike loadKin (a.load height) := by
  refine .ask ?_
  rintro _ _ (_ | ⟨first, _ | _⟩)
  cases first with
  | error e => exact .done rfl
  | @ok ticks ticks₀ same =>
    obtain rfl : ticks = ticks₀ := same
    refine .ask fun results results₀ alike => .done ?_
    exact congrArg (fun orders => Load.mk a.pool (restingOrders a.pool height orders))
      (ordersRead_of_alike alike)

end CrossBook.Engine
