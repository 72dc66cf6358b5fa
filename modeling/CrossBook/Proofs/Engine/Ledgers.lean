import CrossBook.Proofs.Engine.Histories

/-!
# The claims of abandoned cycles

A cycle that ends drops or sends the claims it has collected; one that unwinds, or whose block does,
leaves them in its ledger. So cycles begin with empty ledgers as long as the block before did not
unwind, and then each message lists the claims of its own plan. After a block that unwound a message
also lists what was left behind.

## Main results

* `Engine.Session.Orderly.empty_of_begin` — a cycle that is about to begin has an empty ledger, if
  the block before did not unwind
* `Engine.Session.claims_of_own_plan` — what messages list, over whole histories
-/

namespace CrossBook.Engine

variable {σ : Type}

/-- A trade sends one message, with what the ledger held before and the claims of its plan. -/
theorem Trader.commitments_eq {t : Trader} {surroundings : Surroundings}
    {Kept : Cooldowns → Cooldowns → Prop} {height : Nat} {stores stores' : Stores}
    {trace : List Exchange} {e : Execution} (undisturbed : t.Undisturbed surroundings Kept)
    (run : (t.cycle height).Runs surroundings stores trace (.ok (.executed e)) stores') :
    ∃ order swap, commitments trace = [.placeOrder order, .swap swap,
      .execute t.listing.address.contract
        (Trade.batchText ((stores.ledger t.ledger).claims ++ e.plan.claims))] := by
  rcases runs_cycle undisturbed run with
    quiet | ⟨_, _, _, _, p, order, swap, -, -, -, trading⟩
  · exact absurd rfl (quiet.untraded e)
  · obtain ⟨legs, flush, same⟩ := trading.executed
    obtain rfl := Outcome.executed.inj same
    exact ⟨order, swap, trading.sent⟩

namespace Session

variable {s s' : Session σ} {log : List Occurrence}

theorem InFlight.settled {permit : Nat} {f : Flight} {before after : List Occurrence}
    {e : BlockEvent} (h : s.InFlight log permit f before e after) (settled : Settled log) :
    Settled before := by
  rw [Settled, h.since.log_eq, List.append_cons, lastEnd_append_of_silent h.going,
    lastEnd_append_of_silent (by simp)] at settled
  exact settled

/-- As long as cycles run, whoever has had their turns, each cycle in line has begun, or its ledger
is empty if the block before did not unwind. -/
theorem Orderly.empty_of_begin (h : s.Orderly log) {permit height : Nat} {refreshed : List Nat}
    {fleet : Fleet Landing} {outcomes : List PairOutcome}
    (one : s.flights = [(permit, .trading height refreshed fleet outcomes)]) (count : Nat)
    {w : Waiting Landing} (inLine : w ∈ (fleet.run s.network count s.scene).2.inLine) :
    w.asksLeft < 5 ∨ ∃ t ∈ s.traders, w = .ofProgram (t.takeOff height) ∧
      (Settled log → (fleet.run s.network count s.scene).1.stores.ledger t.ledger = .empty) := by
  cases h.stands with
  | idle nobody => exact absurd (nobody.symm.trans one) (by simp)
  | refreshing flight => exact absurd (flight.one.symm.trans one) (by simp)
  | @trading _ _ _ _ _ _ _ left done flight reads serves cycles ledgers =>
    obtain ⟨⟨⟩, -⟩ := List.cons.inj (flight.one.symm.trans one)
    have different : (left ++ done).Pairwise fun t t' => t.ledger ≠ t'.ledger :=
      (cycles.pairwise_iff Ne.symm).mpr h.different
    obtain ⟨⟨atWork, ended, assigned, jobs⟩, -⟩ :=
      serves.run count (tradingPairs_apart (List.pairwise_append.mp different).1)
    obtain ⟨⟨t, w⟩, working, rfl⟩ :=
      List.mem_map.mp (assigned.programs.mem_iff.mpr (List.mem_append_left _ inLine))
    rcases (assigned.holds _ working).2 with begun | ⟨same, empty⟩
    · exact .inl begun
    · refine .inr ⟨t, cycles.subset (List.mem_append_left _ (jobs.subset ?_)), same,
        fun settled => empty (flight.settled settled)⟩
      exact List.mem_append_left _ (List.mem_map_of_mem working)

/-- Between blocks all ledgers are empty, if the last block did not unwind. -/
theorem Orderly.empty_of_idle (h : s.Orderly log) (nobody : s.flights = []) (settled : Settled log)
    {t : Trader} (among : t ∈ s.traders) : s.scene.stores.ledger t.ledger = .empty := by
  cases h.stands with
  | idle _ free reads ledgers => exact ledgers settled t among
  | refreshing flight => exact absurd (nobody.symm.trans flight.one) (by simp)
  | trading flight => exact absurd (nobody.symm.trans flight.one) (by simp)

/-- After any history of a session whose pairs were listed, a cycle that is about to begin has an
empty ledger, if the last block that ended did not unwind; so has every pair between blocks. Any
cycle that trades sends one message, which lists what its ledger held when it began and then the
claims of its plan: only those, when its ledger was empty. -/
theorem claims_of_own_plan {settings : Settings} {s₀ : Session σ} {moves : List (Move σ)}
    (listed : s.list settings = (s₀, .ok ())) (happened : s₀.history moves = (s', log)) :
    (∀ permit height refreshed fleet outcomes,
      s'.flights = [(permit, .trading height refreshed fleet outcomes)] →
      ∀ count, ∀ w ∈ (fleet.run s'.network count s'.scene).2.inLine, w.asksLeft < 5 ∨
        ∃ t ∈ s'.traders, w = .ofProgram (t.takeOff height) ∧ (Settled log →
          (fleet.run s'.network count s'.scene).1.stores.ledger t.ledger = .empty)) ∧
    (s'.flights = [] → Settled log →
      ∀ t ∈ s'.traders, s'.scene.stores.ledger t.ledger = .empty) ∧
    ∀ t ∈ s'.traders, ∀ surroundings Kept height stores trace e stores',
      t.Undisturbed surroundings Kept →
      (t.cycle height).Runs surroundings stores trace (.ok (.executed e)) stores' →
      ∃ order swap claims, commitments trace = [.placeOrder order, .swap swap,
          .execute t.listing.address.contract (Trade.batchText claims)] ∧
        claims = (stores.ledger t.ledger).claims ++ e.plan.claims ∧
        (stores.ledger t.ledger = .empty → claims = e.plan.claims) := by
  have orderly := (orderly_list listed).history moves
  rw [happened, List.nil_append] at orderly
  refine ⟨fun _ _ _ _ _ one count w inLine => orderly.empty_of_begin one count inLine,
    fun nobody settled t => orderly.empty_of_idle nobody settled, ?_⟩
  intro t _ surroundings Kept height stores trace e stores' undisturbed run
  obtain ⟨order, swap, sent⟩ := Trader.commitments_eq undisturbed run
  refine ⟨order, swap, _, sent, rfl, fun empty => ?_⟩
  rw [empty, Ledger.empty, List.nil_append]

/-! ### A price that stops a block -/

/-- A network that answers at once. Its world tells whether prices and gas are too large for an
assessment, and the messages that were sent. -/
def steepNetwork : Network (Bool × List String) where
  waits _ _ := []
  answer
    | .orderBook _ _, w => (w, .ok ⟨1, "book"⟩)
    | .venueMinimums _, w => (w, .ok {})
    | .activeTicks _, w => (w, .ok [1000000])
    | .restingOrders _ tick, w => (w, .ok [.fresh tick 7 "bid" "maker" (.ofWord 80000000 0)])
    | .venueBalances, w => (w, .ok (.ofList [("USDC", .ofWord 1000 0)]))
    | .chainBalances _, w => (w, .ok [⟨"uosmo", .ofWord 30000000 0⟩])
    | .price _ _, w => (w, .ok (if w.1 then (Decimal.ofParts? (10 ^ 28) 0).getD .one else .one))
    | .simulate _ _, w => (w, .ok ⟨.ofWord 60000000 0, if w.1 then 20000000000 else 200000⟩)
    | .swap _, w => (w, .ok ⟨"SWAP", 0, ""⟩)
    | .execute _ message, w => ((w.1, w.2 ++ [message]), .ok ⟨"CLAIM", 0, ""⟩)
    | _, w => (w, .error (.execution (.requestFailed "closed")))
  limitSecs := 10

/-- The session that trades the pair, before its first block. The venue sells at three halves, and
the chain buys at two. -/
def steepSession (steep : Bool) : Session (Bool × List String) :=
  ((unlisted steepNetwork (steep, []) [⟨.ofWord 15 1, .ofWord 100 0⟩]).list onePair).1

/-- The claims of the plans that the cycles of a block executed. -/
def claimsExecuted : Except Abort Report → List (List Trade.Claim)
  | .ok (.processed _ _ outcomes) => outcomes.filterMap fun o =>
    match o.outcome with
    | .executed e => some e.plan.claims
    | _ => none
  | _ => []

/-- A block whose only cycle trades leaves the ledger of its pair empty. -/
theorem claims_of_own_plan_of_trade : ∃ s log,
    (unlisted steepNetwork (false, []) [⟨.ofWord 15 1, .ofWord 100 0⟩]).list onePair =
      (steepSession false, .ok ()) ∧
    (steepSession false).history (wholeBlock 0 4 ⟨100, [1]⟩) = (s, log) ∧
    (lastEnd log).map claimsExecuted = some [[⟨1000000, 7⟩]] ∧
    s.scene.world.2 = [Trade.batchText [⟨1000000, 7⟩]] ∧
    s.flights = [] ∧ Settled log ∧ ∀ t ∈ s.traders, s.scene.stores.ledger t.ledger = .empty := by
  have listed : (unlisted steepNetwork (false, []) [⟨.ofWord 15 1, .ofWord 100 0⟩]).list onePair =
    (steepSession false, .ok ()) := rfl
  have executed : (lastEnd ((steepSession false).history (wholeBlock 0 4 ⟨100, [1]⟩)).2).map
      claimsExecuted = some [[⟨1000000, 7⟩]] := by decide +kernel
  have nobody : ((steepSession false).history (wholeBlock 0 4 ⟨100, [1]⟩)).1.flights.isEmpty := by
    decide +kernel
  have settled : Settled ((steepSession false).history (wholeBlock 0 4 ⟨100, [1]⟩)).2 := by
    intro a ended
    rw [ended] at executed
    cases executed
  have history : (steepSession false).history (wholeBlock 0 4 ⟨100, [1]⟩) = (_, _) := rfl
  obtain ⟨-, idle, -⟩ := claims_of_own_plan listed history
  exact ⟨_, _, listed, history, executed, by decide +kernel, List.isEmpty_iff.mp nobody, settled,
    idle (List.isEmpty_iff.mp nobody) settled⟩

/-- The assessment of the first block's plan leaves the decimals, and the block unwinds. The message
of the next block lists the one claim of its plan twice. -/
theorem abandoned_claims_sent : ∃ s log,
    (steepSession true).history (wholeBlock 0 4 ⟨100, [1]⟩ ++ [.alter fun w => (false, w.2)] ++
      wholeBlock 1 4 ⟨101, []⟩) = (s, log) ∧
    .ended (.error .multiplication) ∈ log ∧
    (lastEnd log).map claimsExecuted = some [[⟨1000000, 7⟩]] ∧
    s.scene.world.2 = [Trade.batchText [⟨1000000, 7⟩, ⟨1000000, 7⟩]] :=
  ⟨_, _, rfl, by decide +kernel⟩

end Session

end CrossBook.Engine
