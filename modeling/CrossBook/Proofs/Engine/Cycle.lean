import CrossBook.Engine.Cycle
import CrossBook.Proofs.Engine.Runs
import CrossBook.Proofs.Trade.Funding

/-!
# What a cycle does

A cycle ends in one of two ways: without a trade, with nothing sent and nothing put to rest, or with
both legs and the claims of its plan sent and its pair put to rest. In both cases its ledger is left
empty.

## Main definitions

* `Engine.commitments`, `Engine.arrivals` — the calls of a trace that spend or claim something
* `Engine.Trader.EndsQuietly`, `Engine.Trader.EndsTrading` — the two ways a cycle ends
* `Engine.Trader.Decision` — what a trade is decided by

## Main results

* `Engine.Trader.runs_cycle` — every cycle that does not unwind ends in one of the two ways
* `Engine.Trader.cycle_effects` — the effects of a cycle follow its outcome
-/

namespace CrossBook.Engine

open Trade

/-! ### Stores -/

namespace Stores

variable (s : Stores)

@[simp] theorem ledger_modifyLedger (number : Nat) (f : Ledger → Ledger) :
    (s.modifyLedger number f).ledger number = f (s.ledger number) := by
  simp [ledger, modifyLedger]

@[simp] theorem cooldowns_modifyLedger (number : Nat) (f : Ledger → Ledger) :
    (s.modifyLedger number f).cooldowns = s.cooldowns := rfl

@[simp] theorem ledger_rest (pair : String) (height number : Nat) :
    (s.rest pair height).ledger number = s.ledger number := rfl

@[simp] theorem cooldowns_rest (pair : String) (height : Nat) :
    (s.rest pair height).cooldowns = s.cooldowns.blockUntil pair height := rfl

end Stores

/-- The call spends or claims something: an order on the venue, a swap, or a message to a
contract. -/
def Call.commits : Call → Bool
  | .placeOrder _ => true
  | .swap _ => true
  | .execute _ _ => true
  | _ => false

/-- The calls of a trace that spend or claim something. -/
def commitments (trace : List Exchange) : List Call := (asked trace).filter Call.commits

/-- The calls of a trace that spend or claim something and reached somebody. -/
def arrivals (trace : List Exchange) : List Call := (reached trace).filter Call.commits

theorem commitments_cons (e : Exchange) (trace : List Exchange) :
    commitments (e :: trace) = e.calls.filter Call.commits ++ commitments trace :=
  List.filter_append _ _

namespace Trader

variable {t : Trader} {surroundings : Surroundings} {Kept : Cooldowns → Cooldowns → Prop}
  {height n : Nat} {s s₁ s' : Stores} {trace : List Exchange} {o : Outcome} {p : Plan}
  {order : MarketOrder} {swap : SwapRequest} {claims : List Claim}

/-! ### How a cycle ends -/

/-- The height until which the pair rests after a trade. -/
def restsUntil (t : Trader) (height : Nat) : Nat := height + t.settings.trade.cooldownBlocks

/-- Whoever runs beside a trader leaves its ledger alone and keeps the cooldowns, in a sense that is
theirs: pairs that rest beside it may have theirs changed. -/
structure Undisturbed (t : Trader) (surroundings : Surroundings)
    (Kept : Cooldowns → Cooldowns → Prop) : Prop where
  refl : ∀ c, Kept c c
  trans : ∀ c c' c'', Kept c c' → Kept c' c'' → Kept c c''
  cooldowns : ∀ s s', surroundings.Meanwhile s s' → Kept s.cooldowns s'.cooldowns
  ledger : ∀ s s', surroundings.Meanwhile s s' → s'.ledger t.ledger = s.ledger t.ledger

/-- The end of a cycle without a trade. -/
structure EndsQuietly (t : Trader) (Kept : Cooldowns → Cooldowns → Prop) (s : Stores)
    (trace : List Exchange) (o : Outcome) (s' : Stores) : Prop where
  untraded : ∀ e, o ≠ .executed e
  silent : commitments trace = []
  kept : Kept s.cooldowns s'.cooldowns
  ledger_eq : s'.ledger t.ledger = .empty

/-- The end of a cycle that trades, with the claims it has collected. -/
structure EndsTrading (t : Trader) (Kept : Cooldowns → Cooldowns → Prop) (height : Nat) (p : Plan)
    (order : MarketOrder) (swap : SwapRequest) (claims : List Claim) (s : Stores)
    (trace : List Exchange) (o : Outcome) (s' : Stores) : Prop where
  executed : ∃ legs flush,
    o = .executed ⟨p, legs, flush, height + t.settings.trade.cooldownBlocks⟩
  sent : commitments trace = [.placeOrder order, .swap swap,
    .execute t.listing.address.contract (batchText claims)]
  rests : ∃ c, Kept s.cooldowns c ∧
    s'.cooldowns = c.blockUntil t.name (height + t.settings.trade.cooldownBlocks)
  ledger_eq : s'.ledger t.ledger = .empty

theorem EndsQuietly.after (undisturbed : t.Undisturbed surroundings Kept) {e : Exchange}
    (h : EndsQuietly t Kept s₁ trace o s') (silent : e.calls.filter Call.commits = [])
    (meanwhile : surroundings.Meanwhile s s₁) : EndsQuietly t Kept s (e :: trace) o s' where
  untraded := h.untraded
  silent := by rw [commitments_cons, silent, h.silent]; rfl
  kept := undisturbed.trans _ _ _ (undisturbed.cooldowns _ _ meanwhile) h.kept
  ledger_eq := h.ledger_eq

theorem EndsTrading.after (undisturbed : t.Undisturbed surroundings Kept) {e : Exchange}
    (h : EndsTrading t Kept height p order swap claims s₁ trace o s')
    (silent : e.calls.filter Call.commits = []) (meanwhile : surroundings.Meanwhile s s₁) :
    EndsTrading t Kept height p order swap claims s (e :: trace) o s' where
  executed := h.executed
  sent := by rw [commitments_cons, silent, h.sent]; rfl
  rests := by
    obtain ⟨c, kept, rests⟩ := h.rests
    exact ⟨c, undisturbed.trans _ _ _ (undisturbed.cooldowns _ _ meanwhile) kept, rests⟩
  ledger_eq := h.ledger_eq

theorem finish_quiet (undisturbed : t.Undisturbed surroundings Kept) {o' : Outcome}
    (untraded : ∀ e, o' ≠ .executed e)
    (h : (t.finish o' (n := n)).Runs surroundings s trace (.ok o) s') :
    EndsQuietly t Kept s trace o s' := by
  rw [finish, Program.runs_change_iff, Program.runs_done_iff] at h
  obtain ⟨rfl, same, rfl⟩ := h
  obtain rfl := Except.ok.inj same
  exact ⟨untraded, rfl, undisturbed.refl _, by simp [Ledger.discard]⟩

/-- A failure that does not unwind ends the cycle without a trade. -/
theorem fail_quiet (undisturbed : t.Undisturbed surroundings Kept) {f : Failure}
    (h : (t.fail height f (n := n)).Runs surroundings s trace (.ok o) s') :
    EndsQuietly t Kept s trace o s' := by
  unfold fail at h
  split at h
  · obtain ⟨-, same, -⟩ := Program.runs_done_iff.mp h
    cases same
  · split_ifs at h
    · obtain ⟨-, same, -⟩ := Program.runs_done_iff.mp h
      cases same
    · exact finish_quiet undisturbed (fun _ same => by cases same) h

/-! ### The trade -/

theorem cooldownUntil_eq_ok {until_ : Nat} (h : t.cooldownUntil height = .ok until_) :
    until_ = height + t.settings.trade.cooldownBlocks := by
  unfold cooldownUntil at h
  dsimp only at h
  split_ifs at h
  exact (Except.ok.inj h).symm

theorem cooldownUntil_eq_error {f : Failure} (h : t.cooldownUntil height = .error f) :
    f = .abort .wordAddition := by
  unfold cooldownUntil at h
  dsimp only at h
  split_ifs at h
  exact (Except.error.inj h).symm

/-- A cycle that has traded puts its pair to rest, or unwinds. -/
theorem runs_close {legs : Legs} {flush : ClaimFlush}
    (h : (t.close height p legs flush (n := n)).Runs surroundings s trace (.ok o) s') :
    trace = [] ∧ o = .executed ⟨p, legs, flush, height + t.settings.trade.cooldownBlocks⟩ ∧
      s' = s.rest t.name (height + t.settings.trade.cooldownBlocks) := by
  unfold close at h
  cases rests : t.cooldownUntil height with
  | error f =>
    obtain rfl := cooldownUntil_eq_error rests
    rw [rests] at h
    obtain ⟨-, same, -⟩ := Program.runs_done_iff.mp h
    cases same
  | ok until_ =>
    rw [rests] at h
    obtain rfl := cooldownUntil_eq_ok rests
    obtain ⟨rfl, same, rfl⟩ := Program.runs_done_iff.mp (Program.runs_change_iff.mp h)
    exact ⟨rfl, Except.ok.inj same, rfl⟩

/-- The claims in the ledger are sent in one message, whatever becomes of it. -/
theorem runs_claim (undisturbed : t.Undisturbed surroundings Kept) {legs : Legs}
    (collected : (s.ledger t.ledger).claims = claims) (some_claims : claims ≠ [])
    (h : (t.claim height p legs).Runs surroundings s trace (.ok o) s') :
    (∃ flush, o = .executed ⟨p, legs, flush, height + t.settings.trade.cooldownBlocks⟩) ∧
      commitments trace = [.execute t.listing.address.contract (batchText claims)] ∧
      (∃ c, Kept s.cooldowns c ∧
        s'.cooldowns = c.blockUntil t.name (height + t.settings.trade.cooldownBlocks)) ∧
      s'.ledger t.ledger = .empty := by
  rw [claim, Program.runs_look_iff] at h
  dsimp only at h
  rw [Program.runs_change_iff, collected, if_neg (by simpa using some_claims)] at h
  obtain ⟨r, there, s₁, rest, rfl, -, meanwhile, h⟩ := Program.runs_call_iff.mp h
  obtain ⟨rfl, rfl, rfl⟩ := runs_close h
  -- the ledger is drained before the call is made, and stays empty while the cycle waits
  have kept := undisturbed.cooldowns _ _ meanwhile
  rw [Stores.cooldowns_modifyLedger] at kept
  refine ⟨⟨_, rfl⟩, rfl, ⟨s₁.cooldowns, kept, rfl⟩, ?_⟩
  rw [Stores.ledger_rest, undisturbed.ledger _ _ meanwhile, Stores.ledger_modifyLedger]
  rfl

/-- Both legs are sent, and then the claims in the ledger. -/
theorem runs_send (undisturbed : t.Undisturbed surroundings Kept)
    (collected : (s.ledger t.ledger).claims = claims) (some_claims : claims ≠ [])
    (h : (t.send height p order swap).Runs surroundings s trace (.ok o) s') :
    EndsTrading t Kept height p order swap claims s trace o s' := by
  obtain ⟨answer, there, s₁, rest, rfl, -, meanwhile, h⟩ := Program.runs_ask_iff.mp h
  rcases answer with _ | ⟨venue, _ | ⟨chain, _ | _⟩⟩
  obtain ⟨⟨flush, rfl⟩, sent, ⟨c, kept, rests⟩, empty⟩ :=
    runs_claim undisturbed (by rw [undisturbed.ledger _ _ meanwhile, collected]) some_claims h
  refine ⟨⟨_, flush, rfl⟩, ?_, ⟨c, ?_, rests⟩, empty⟩
  · rw [commitments_cons, sent]
    rfl
  · exact undisturbed.trans _ _ _ (undisturbed.cooldowns _ _ meanwhile) kept

/-! ### The way to a trade -/

/-- What a trade is decided by: the plan the two books offer, prices, and a simulation. -/
structure Decision (t : Trader) (p : Plan) (order : MarketOrder) (swap : SwapRequest) : Prop where
  nonempty : ¬ p.IsEmpty
  weighed : ∃ prices simulation, t.shortfall p prices = .ok none ∧
    t.verdict p prices simulation = .ok (.trade order swap)

/-- The cycle ends without a trade, or with the trade of a decision. -/
def Ends (t : Trader) (Kept : Cooldowns → Cooldowns → Prop) (height : Nat) (p : Plan)
    (claims : List Claim) (s : Stores) (trace : List Exchange) (o : Outcome) (s' : Stores) : Prop :=
  EndsQuietly t Kept s trace o s' ∨ ∃ order swap, Decision t p order swap ∧
    EndsTrading t Kept height p order swap claims s trace o s'

theorem Ends.after (undisturbed : t.Undisturbed surroundings Kept) {e : Exchange}
    (h : Ends t Kept height p claims s₁ trace o s') (silent : e.calls.filter Call.commits = [])
    (meanwhile : surroundings.Meanwhile s s₁) :
    Ends t Kept height p claims s (e :: trace) o s' := by
  rcases h with quiet | ⟨order, swap, decision, trading⟩
  · exact .inl (quiet.after undisturbed silent meanwhile)
  · exact .inr ⟨order, swap, decision, trading.after undisturbed silent meanwhile⟩

theorem runs_weigh (undisturbed : t.Undisturbed surroundings Kept)
    (collected : (s.ledger t.ledger).claims = claims) (some_claims : claims ≠ [])
    (nonempty : ¬ p.IsEmpty) {prices : PriceSheet} {simulation : SwapSimulation}
    (enough : t.shortfall p prices = .ok none)
    (h : (t.weigh height p prices simulation).Runs surroundings s trace (.ok o) s') :
    Ends t Kept height p claims s trace o s' := by
  rw [weigh] at h
  rcases verdict : t.verdict p prices simulation with f | ⟨profit, cost⟩ | ⟨order, swap⟩ <;>
    rw [verdict, act] at h
  · exact .inl (fail_quiet undisturbed h)
  · exact .inl (finish_quiet undisturbed (fun _ same => by cases same) h)
  · exact .inr ⟨order, swap, ⟨nonempty, prices, simulation, enough, verdict⟩,
      runs_send undisturbed collected some_claims h⟩

theorem runs_simulate (undisturbed : t.Undisturbed surroundings Kept)
    (collected : (s.ledger t.ledger).claims = claims) (some_claims : claims ≠ [])
    (nonempty : ¬ p.IsEmpty) {prices : PriceSheet}
    (h : (t.simulate height p prices).Runs surroundings s trace (.ok o) s') :
    Ends t Kept height p claims s trace o s' := by
  rw [simulate] at h
  rcases enough : t.shortfall p prices with f | _ | ⟨fill, minimum⟩ <;>
    rw [enough, simulateUnless] at h
  · exact .inl (fail_quiet undisturbed h)
  · obtain ⟨r, there, s₁, rest, rfl, -, meanwhile, h⟩ := Program.runs_call_iff.mp h
    rcases r with e | simulation
    · exact .inl ((fail_quiet undisturbed h).after undisturbed rfl meanwhile)
    · exact (runs_weigh undisturbed (by rw [undisturbed.ledger _ _ meanwhile, collected])
        some_claims nonempty enough h).after undisturbed rfl meanwhile
  · exact .inl (finish_quiet undisturbed (fun _ same => by cases same) h)

theorem runs_fetchPrices (undisturbed : t.Undisturbed surroundings Kept)
    (collected : (s.ledger t.ledger).claims = claims) (some_claims : claims ≠ [])
    (nonempty : ¬ p.IsEmpty)
    (h : (t.fetchPrices height p).Runs surroundings s trace (.ok o) s') :
    Ends t Kept height p claims s trace o s' := by
  obtain ⟨answer, there, s₁, rest, rfl, -, meanwhile, h⟩ := Program.runs_ask_iff.mp h
  rcases answer with e | ⟨_ | ⟨base, _ | ⟨quote, _ | ⟨fee, _ | _⟩⟩⟩⟩
  · exact .inl ((fail_quiet undisturbed h).after undisturbed rfl meanwhile)
  · exact (runs_simulate undisturbed (by rw [undisturbed.ledger _ _ meanwhile, collected])
      some_claims nonempty h).after undisturbed rfl meanwhile

/-! ### The plan of a trade -/

theorem sized_eq_ok {d : Direction} {native : Venue.Book} {resting : Chain.RestingBook}
    {plan : Plan} (h : t.sized d native resting = .ok plan) :
    plan.Consistent ∧ plan.direction = d := by
  cases d <;> exact ⟨Plan.size_consistent h, Plan.size_direction h⟩

/-- The plan was sized, and then funded by the balances its direction spends. -/
def Funded (t : Trader) (venue : Table String Decimal) (coins : List Coin) (p : Plan) : Prop :=
  ∃ (balances : Balances) (plan : Plan), t.balances venue coins = .ok balances ∧ plan.Consistent ∧
    plan.fund (balances.funding plan.direction).1 (balances.funding plan.direction).2 = .ok p

theorem prospect_funded {venue : Table String Decimal} {coins : List Coin}
    (h : t.prospect s venue coins = .ok (.funded p)) : t.Funded venue coins p := by
  rw [prospect] at h
  obtain ⟨balances, fetched, h⟩ := bind_eq_ok.mp h
  obtain ⟨book, -, h⟩ := bind_eq_ok.mp h
  obtain ⟨resting, -, h⟩ := bind_eq_ok.mp h
  obtain ⟨opportunity, -, h⟩ := bind_eq_ok.mp h
  cases opportunity with
  | none => cases Except.ok.inj h
  | some found =>
    obtain ⟨native, -, h⟩ := bind_eq_ok.mp h
    obtain ⟨plan, sized, h⟩ := bind_eq_ok.mp h
    obtain ⟨consistent, direction⟩ := sized_eq_ok sized
    split_ifs at h with empty
    · cases Except.ok.inj h
    · obtain ⟨funded, fund, h⟩ := bind_eq_ok.mp h
      obtain rfl := Prospect.funded.inj (Except.ok.inj h)
      exact ⟨balances, plan, fetched, consistent, by rw [direction]; exact fund⟩

/-- A plan that is funded and not empty has claims. -/
theorem Funded.claims_ne_nil {venue : Table String Decimal} {coins : List Coin}
    (h : t.Funded venue coins p) (nonempty : ¬ p.IsEmpty) : p.claims ≠ [] := by
  obtain ⟨balances, plan, -, consistent, fund⟩ := h
  rw [Plan.isEmpty_iff, not_or, not_le] at nonempty
  exact (consistent.fund fund).claims_ne_nil nonempty.1

theorem runs_compare_iff {venue : Table String Decimal} {coins : List Coin} {ending : Ending} :
    (t.compare height venue coins).Runs surroundings s trace ending s' ↔
      (t.takeUp height (t.prospect s venue coins)).Runs surroundings s trace ending s' := by
  unfold Trader.compare
  exact Program.runs_look_iff

theorem runs_takeUp (undisturbed : t.Undisturbed surroundings Kept)
    (collected : (s.ledger t.ledger).claims = claims) {prospect : Except Failure Prospect}
    (funded : ∀ p, prospect = .ok (.funded p) → ¬ p.IsEmpty → p.claims ≠ [])
    (h : (t.takeUp height prospect).Runs surroundings s trace (.ok o) s') :
    EndsQuietly t Kept s trace o s' ∨
      ∃ p, prospect = .ok (.funded p) ∧ Ends t Kept height p (claims ++ p.claims) s trace o s' := by
  rcases prospect with f | _ | _ | p <;> rw [takeUp] at h
  · exact .inl (fail_quiet undisturbed h)
  · exact .inl (finish_quiet undisturbed (fun _ same => by cases same) h)
  · exact .inl (finish_quiet undisturbed (fun _ same => by cases same) h)
  · rw [Program.runs_change_iff] at h
    have recorded : ((s.modifyLedger t.ledger fun l => l.record p.claims).ledger
        t.ledger).claims = claims ++ p.claims := by
      rw [Stores.ledger_modifyLedger, ← collected]
      rfl
    split_ifs at h with nothing
    · have quiet := finish_quiet undisturbed (fun _ same => by cases same) h
      exact .inl ⟨quiet.untraded, quiet.silent, quiet.kept, quiet.ledger_eq⟩
    · -- from here on the ledger holds the claims of the plan, behind those it held before
      refine .inr ⟨p, rfl, ?_⟩
      have some_claims := List.append_ne_nil_of_right_ne_nil claims (funded p rfl nothing)
      rcases runs_fetchPrices undisturbed recorded some_claims nothing h with
        quiet | ⟨order, swap, decision, trading⟩
      · exact .inl ⟨quiet.untraded, quiet.silent, quiet.kept, quiet.ledger_eq⟩
      · exact .inr ⟨order, swap, decision, trading.executed, trading.sent, trading.rests,
          trading.ledger_eq⟩

/-- The exchange in which a cycle fetches balances. -/
def fetched (t : Trader) (venue : Table String Decimal) (coins : List Coin) (there : List Call) :
    Exchange :=
  ⟨[.venueBalances, .chainBalances t.settings.chain.accountAddress], .untilFailure,
    .ok (.cons venue (.cons coins .nil)), there⟩

/-- Every cycle that does not unwind ends without a trade, or fetches balances and trades what they
fund. -/
theorem runs_cycle (undisturbed : t.Undisturbed surroundings Kept)
    (h : (t.cycle height).Runs surroundings s trace (.ok o) s') :
    EndsQuietly t Kept s trace o s' ∨
      ∃ venue coins there rest p order swap, trace = t.fetched venue coins there :: rest ∧
        t.Funded venue coins p ∧ Decision t p order swap ∧
        EndsTrading t Kept height p order swap ((s.ledger t.ledger).claims ++ p.claims) s trace o
          s' := by
  -- every exit before the trade is quiet; what is asked for on the way commits to nothing
  rw [cycle, Program.runs_look_iff] at h
  rcases rests : s.cooldowns.blockedUntil t.name height with _ | blocked <;> rw [rests] at h
  · obtain ⟨answer, there, s₁, rest, rfl, -, meanwhile, h⟩ := Program.runs_ask_iff.mp h
    rcases answer with e | ⟨_ | ⟨venue, _ | ⟨coins, _ | _⟩⟩⟩
    · exact .inl ((fail_quiet undisturbed h).after undisturbed rfl meanwhile)
    · rcases runs_takeUp undisturbed (by rw [undisturbed.ledger _ _ meanwhile])
        (fun p offer nonempty => (prospect_funded offer).claims_ne_nil nonempty)
        (runs_compare_iff.mp h) with
        quiet | ⟨p, offer, ends⟩
      · exact .inl (quiet.after undisturbed rfl meanwhile)
      · rcases ends.after (e := t.fetched venue coins there) undisturbed rfl meanwhile with
          quiet | ⟨order, swap, decision, trading⟩
        · exact .inl quiet
        · exact .inr ⟨venue, coins, there, rest, p, order, swap, rfl, prospect_funded offer,
            decision, trading⟩
  · exact .inl (finish_quiet undisturbed (fun _ same => by cases same) h)

/-- The effects of a cycle follow its outcome. Without a trade nothing is sent and the cooldowns are
kept. With one, the order, the swap and the claims of its plan are sent, once each and whatever
becomes of them, and the pair rests. In no case does the ledger keep a claim. -/
theorem cycle_effects (undisturbed : t.Undisturbed surroundings Kept)
    (empty : s.ledger t.ledger = .empty)
    (run : (t.cycle height).Runs surroundings s trace (.ok o) s') :
    (match o with
      | .executed e =>
        e.plan.claims ≠ [] ∧
        (∃ order swap, commitments trace = [.placeOrder order, .swap swap,
          .execute t.listing.address.contract (batchText e.plan.claims)]) ∧
        e.cooldownUntil = height + t.settings.trade.cooldownBlocks ∧
        s'.cooldowns.get? t.name = some (height + t.settings.trade.cooldownBlocks) ∧
        ∃ c, Kept s.cooldowns c ∧ s'.cooldowns = c.blockUntil t.name e.cooldownUntil
      | _ => commitments trace = [] ∧ Kept s.cooldowns s'.cooldowns) ∧
      (arrivals trace).Subperm (commitments trace) ∧
      (∀ c ∈ commitments trace, surroundings.Prompt c → c ∈ arrivals trace) ∧
      s'.ledger t.ledger = .empty := by
  refine ⟨?_, run.reached_subperm.filter _, fun c sent prompt => ?_, ?_⟩
  · rcases runs_cycle undisturbed run with
      quiet | ⟨venue, coins, there, rest, p, order, swap, -, funded, decision, trading⟩
    · have untraded := quiet.untraded
      split
      · exact absurd rfl (untraded _)
      · exact ⟨quiet.silent, quiet.kept⟩
    · obtain ⟨legs, flush, rfl⟩ := trading.executed
      obtain ⟨c, kept, rests⟩ := trading.rests
      have sent := trading.sent
      rw [empty, Ledger.empty, List.nil_append] at sent
      exact ⟨funded.claims_ne_nil decision.nonempty, ⟨order, swap, sent⟩, rfl,
        by rw [rests, Cooldowns.blockUntil, Table.get?_insert_self], c, kept, rests⟩
  · obtain ⟨made, commits⟩ := List.mem_filter.mp sent
    exact List.mem_filter.mpr ⟨run.mem_reached made prompt, commits⟩
  · rcases runs_cycle undisturbed run with quiet | ⟨_, _, _, _, _, _, _, -, -, -, trading⟩
    · exact quiet.ledger_eq
    · exact trading.ledger_eq

/-! ### A cycle that trades -/

/-- A trader of one pair, with everything left at its default. -/
def sampleTrader : Trader where
  ledger := 0
  listing :=
    { pair := ⟨⟨"OSMO", "uosmo", some 6, none⟩, ⟨"USDC", "uusdc", some 6, none⟩⟩
      units := ⟨6, 6⟩
      address := ⟨1, "book"⟩
      minBase := none
      minQuote := none
      basePlaces := none
      quotePlaces := some 2 }
  settings := { chain := { usdDenom := "uusdc" } }

/-- A level at three halves on the venue, and a bid at two on the chain. -/
def sampleStores : Stores where
  shelf := .ofList [("OSMOUSDC", ⟨"OSMOUSDC", [], [⟨.ofWord 15 1, .ofWord 100 0⟩]⟩)]
  pools := .ofList [(1, ⟨1, 100, [.fresh 1000000 7 "bid" "maker" (.ofWord 80000000 0)], []⟩)]
  cooldowns := .empty
  ledgers := .empty

/-- A network that answers at once. It knows prices and balances, and every transaction on it
fails. -/
def sampleNetwork : Network Unit where
  waits _ _ := []
  answer
    | .venueBalances, w => (w, .ok (.ofList [("USDC", .ofWord 1000 0)]))
    | .chainBalances _, w => (w, .ok [⟨"uosmo", .ofWord 30000000 0⟩])
    | .price _ _, w => (w, .ok Decimal.one)
    | .simulate _ _, w => (w, .ok ⟨.ofWord 60000000 0, 200000⟩)
    | .swap _, w => (w, .ok ⟨"SWAP", 5, "slippage exceeded"⟩)
    | _, w => (w, .error (.execution (.requestFailed "closed")))
  limitSecs := 10

/-- Nothing happens beside a program, and no call that is made has to wait. -/
def stillness : Surroundings := ⟨Eq, fun c => c.known? = none⟩

theorem stillness_admits : stillness.Admits sampleNetwork Eq where
  refl _ := rfl
  trans _ _ _ := Eq.trans
  meanwhile _ _ same := same ▸ ⟨rfl, rfl⟩
  prompt _ unknown := ⟨unknown, fun _ => rfl⟩

theorem undisturbed_of_stillness (t : Trader) : t.Undisturbed stillness Eq where
  refl _ := rfl
  trans _ _ _ := Eq.trans
  cooldowns _ _ same := congrArg _ same
  ledger _ _ same := congrArg (Stores.ledger · t.ledger) same.symm

/-- What a task that has ended in a trade has done. -/
def executed? : Task Ending → Option Execution
  | .finished (.ok (.executed e)) => some e
  | _ => none

theorem eq_finished_of_executed? {task : Task Ending} {e : Execution}
    (h : executed? task = some e) : task = .finished (.ok (.executed e)) := by
  unfold executed? at h
  split at h
  · rw [Option.some.inj h]
  · cases h

/-- The trade that the sample network sees, with the claims of its plan. -/
theorem sampleTrader_trades : ∃ trace e s',
    (sampleTrader.cycle 100).Runs stillness sampleStores trace (.ok (.executed e)) s' ∧
      e.plan.claims = [⟨1000000, 7⟩] := by
  obtain ⟨e, executed, claims⟩ := Option.map_eq_some_iff.mp
    (show (executed? (advance sampleNetwork.logged (sampleTrader.cycle 100)
      ⟨sampleStores, ((), []), 0, 0, 0⟩).2).map (·.plan.claims) = some [⟨1000000, 7⟩] by
      decide +kernel)
  obtain ⟨trace, runs, -⟩ := runs_of_finished stillness_admits (eq_finished_of_executed? executed)
  exact ⟨trace, e, _, runs, claims⟩

/-- The venue takes no order and the swap fails on the chain, and still the claim is sent. -/
theorem cycle_effects_of_failed_legs : ∃ trace e s',
    sampleStores.ledger sampleTrader.ledger = .empty ∧
      (sampleTrader.cycle 100).Runs stillness sampleStores trace (.ok (.executed e)) s' ∧
      (∃ order swap, commitments trace = [.placeOrder order, .swap swap,
        .execute "book" (batchText [⟨1000000, 7⟩])]) ∧
      s'.cooldowns.get? "OSMO/USDC" = some 105 ∧ s'.ledger sampleTrader.ledger = .empty := by
  obtain ⟨trace, e, s', run, claims⟩ := sampleTrader_trades
  obtain ⟨⟨-, sent, -, rests, -⟩, -, -, empty⟩ :=
    cycle_effects (undisturbed_of_stillness sampleTrader) rfl run
  rw [claims] at sent
  exact ⟨trace, e, s', rfl, run, sent, rests, empty⟩

end Trader

end CrossBook.Engine
