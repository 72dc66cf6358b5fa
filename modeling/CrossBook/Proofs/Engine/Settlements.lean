import CrossBook.Proofs.Engine.Blocks
import CrossBook.Proofs.Engine.Ledgers
import CrossBook.Proofs.Engine.Snapshots

/-!
# Trades that are settled

A pair that sends its legs also sends the claims of its plan, and then rests: that is what a block
which returns has done for every pair that traded. A block that unwinds drops the cycles that are
under way. If such a cycle was about to send nothing, nothing is left undone; but it may wait for
both legs or for its claims, and then its pair is not put to rest.

## Main definitions

* `Engine.Trader.HasSent` — what a cycle has sent, whatever its course was
* `Engine.Trader.Standing` — how a trade stands, told by the task of its cycle

## Main results

* `Engine.Trader.Underway.standing`, `Engine.Trader.Landed.standing` — how cycles stand
* `Engine.Session.trades_settled` — how trades stand while a block runs, and when it ends
-/

namespace CrossBook.Engine

open Trade Program

variable {σ : Type}

namespace Trader

variable {t : Trader} {surroundings : Surroundings} {Kept : Cooldowns → Cooldowns → Prop}
  {shared : Prop} {height : Nat} {base : Cooldowns} {s s₁ : Stores} {trace : List Exchange}
  {l : Landing}

/-! ### How a trade stands -/

/-- Both legs of a trade. -/
def BothLegs (calls : List Call) : Prop := ∃ order swap, calls = [.placeOrder order, .swap swap]

/-- Both legs of a trade, and the message with its claims. -/
def WholeTrade (t : Trader) (calls : List Call) : Prop :=
  ∃ order swap claims, calls = [.placeOrder order, .swap swap,
    .execute t.listing.address.contract (batchText claims)]

/-- Whatever course has led to a task of the cycle, the calls that spend or claim something on it
are such. -/
def HasSent (t : Trader) (height : Nat) (Such : List Call → Prop) (task : Task Landing) : Prop :=
  ∀ surroundings Kept s trace s', t.Undisturbed surroundings Kept →
    (t.takeOff height).Leads surroundings s trace task s' → Such (commitments trace)

/-- How a trade stands, told by the task of its cycle. As long as that waits: it has not begun, or
nothing was sent, or it waits for both legs, or it waits for its claims. When it has landed: nothing
was sent, or the trade is settled, or there is no height to rest until. -/
inductive Standing (t : Trader) (height : Nat) : Task Landing → Stores → Prop
  | unbegun {s : Stores} : Standing t height (.waiting (.ofProgram (t.takeOff height))) s
  | looking {w : Waiting Landing} {s : Stores} (unsent : t.HasSent height (· = []) (.waiting w))
      (silent : w.calls.filter Call.commits = []) : Standing t height (.waiting w) s
  | sending {w : Waiting Landing} {s : Stores} (unsent : t.HasSent height (· = []) (.waiting w))
      (legs : BothLegs w.calls) : Standing t height (.waiting w) s
  | claiming {w : Waiting Landing} {s : Stores} (sent : t.HasSent height BothLegs (.waiting w))
      (claims : List Claim)
      (calls : w.calls = [.execute t.listing.address.contract (batchText claims)]) :
      Standing t height (.waiting w) s
  | untraded {l : Landing} {s : Stores} (unsent : t.HasSent height (· = []) (.finished l))
      (untraded : ∀ e, l.ending ≠ .ok (.executed e)) : Standing t height (.finished l) s
  | settled {l : Landing} {s : Stores} {e : Execution}
      (sent : t.HasSent height t.WholeTrade (.finished l)) (traded : l.ending = .ok (.executed e))
      (settled : t.SettledAt height s) : Standing t height (.finished l) s
  | late {l : Landing} {s : Stores} (ending : l.ending = .error .wordAddition)
      (late : twoTo 64 ≤ t.restsUntil height) : Standing t height (.finished l) s

/-! ### Cycles that wait -/

section Waiting

variable {w : Waiting Ending}

theorem Stage.uncommitted (h : t.Stage height trace (.waiting w))
    (early : w.calls.filter Call.commits = [] ∨ BothLegs w.calls) : commitments trace = [] := by
  cases h with
  | looking uncommitted => exact uncommitted
  | sending uncommitted => exact uncommitted
  | claiming order swap claims sent calls =>
    rw [calls] at early
    rcases early with silent | ⟨_, _, legs⟩
    · cases silent
    · cases legs

theorem Stage.bothLegs (h : t.Stage height trace (.waiting w)) {contract message : String}
    (calls : w.calls = [.execute contract message]) : BothLegs (commitments trace) := by
  cases h with
  | looking uncommitted silent =>
    rw [calls] at silent
    cases silent
  | sending uncommitted order swap legs =>
    rw [calls] at legs
    cases legs
  | claiming order swap claims sent => exact ⟨order, swap, sent⟩

end Waiting

/-- A cycle that waits has come to a stage, which its calls tell. -/
theorem stage_of_takeOff (undisturbed : t.Undisturbed surroundings Kept) {w : Waiting Landing}
    (leads : (t.takeOff height).Leads surroundings s₁ trace (.waiting w) s) :
    ∃ w' : Waiting Ending, w'.calls = w.calls ∧ t.Stage height trace (.waiting w') := by
  obtain ⟨w', same, course⟩ := leads_of_takeOff leads
  refine ⟨w', same, ?_⟩
  cases blocked : s₁.cooldowns.blockedUntil t.name height with
  | some until_ =>
    obtain ⟨-, ended, -⟩ := leads_cycle_of_blocked blocked course
    cases ended
  | none => exact (leads_cycle_of_free undisturbed blocked course).stage

theorem Underway.standing {w : Waiting Landing} (h : t.Underway shared height base w s) :
    t.Standing height (.waiting w) s := by
  cases h with
  | inLine since => exact .unbegun
  | begun since leads =>
    have unsent (early : w.calls.filter Call.commits = [] ∨ BothLegs w.calls) :
        t.HasSent height (· = []) (.waiting w) := by
      intro surroundings Kept s trace s' undisturbed leads
      obtain ⟨w', same, stage⟩ := stage_of_takeOff undisturbed leads
      exact stage.uncommitted (same ▸ early)
    -- The calls it waits for tell the stage it has come to, and that tells what was sent.
    obtain ⟨w', same, stage⟩ := stage_of_takeOff (t.undisturbed_beside shared height) leads
    cases stage with
    | looking uncommitted silent =>
      rw [same] at silent
      exact .looking (unsent (.inl silent)) silent
    | sending uncommitted order swap calls =>
      have legs : BothLegs w.calls := ⟨order, swap, same.symm.trans calls⟩
      exact .sending (unsent (.inr legs)) legs
    | claiming order swap claims sent calls =>
      refine .claiming ?_ claims (same.symm.trans calls)
      intro surroundings Kept s trace s' undisturbed leads
      obtain ⟨w₁, same₁, stage⟩ := stage_of_takeOff undisturbed leads
      exact stage.bothLegs ((same₁.trans same.symm).trans calls)

/-! ### Cycles that have landed -/

/-- A cycle that has unwound has sent nothing, or there is no height to rest until. -/
theorem uncommitted_of_error (undisturbed : t.Undisturbed surroundings Kept) {a : Abort}
    (run : (t.cycle height).Runs surroundings s₁ trace (.error a) s) :
    commitments trace = [] ∨ a = .wordAddition ∧ twoTo 64 ≤ t.restsUntil height := by
  have course := leads_finished_iff.mpr run
  cases blocked : s₁.cooldowns.blockedUntil t.name height with
  | some until_ =>
    obtain ⟨-, ended, -⟩ := leads_cycle_of_blocked blocked course
    cases ended
  | none =>
    cases (leads_cycle_of_free undisturbed blocked course).stage with
    | unwound uncommitted => exact .inl uncommitted
    | beyond late => exact .inr ⟨rfl, late⟩

/-- A cycle that has an outcome has sent nothing, or it has sent both legs and its claims and has
traded. -/
theorem commitments_of_ok (undisturbed : t.Undisturbed surroundings Kept) {o : Outcome}
    (run : (t.cycle height).Runs surroundings s₁ trace (.ok o) s) :
    commitments trace = [] ∧ (∀ e, o ≠ .executed e) ∨
      t.WholeTrade (commitments trace) ∧ ∃ e, o = .executed e := by
  rcases runs_cycle undisturbed run with quiet | ⟨_, _, _, _, _, order, swap, -, -, -, trading⟩
  · exact .inl ⟨quiet.silent, quiet.untraded⟩
  · obtain ⟨legs, flush, traded⟩ := trading.executed
    exact .inr ⟨⟨order, swap, _, trading.sent⟩, _, traded⟩

theorem Landed.standing (h : t.Landed shared height base l s) :
    t.Standing height (.finished l) s := by
  cases ending : l.ending with
  | error a =>
    by_cases late : a = .wordAddition ∧ twoTo 64 ≤ t.restsUntil height
    · exact .late (by rw [ending, late.1]) late.2
    · refine .untraded ?_ fun e => by simp [ending]
      intro surroundings Kept s trace s' undisturbed leads
      obtain ⟨-, run⟩ := runs_of_takeOff leads
      rw [ending] at run
      exact (uncommitted_of_error undisturbed run).resolve_right late
  | ok o =>
    -- Whatever course has led here, it is a run with this outcome.
    have sends {surroundings Kept s trace s'} (undisturbed : t.Undisturbed surroundings Kept)
        (leads : (t.takeOff height).Leads surroundings s trace (.finished l) s') :=
      commitments_of_ok undisturbed (ending ▸ (runs_of_takeOff leads).2)
    by_cases traded : ∃ e, o = .executed e
    · obtain ⟨e, rfl⟩ := traded
      refine .settled ?_ ending (h.settled ending)
      intro surroundings Kept s trace s' undisturbed leads
      rcases sends undisturbed leads with ⟨-, untraded⟩ | ⟨whole, -⟩
      · exact absurd rfl (untraded e)
      · exact whole
    · refine .untraded ?_ fun e same => traded ⟨e, Except.ok.inj (ending.symm.trans same)⟩
      intro surroundings Kept s trace s' undisturbed leads
      rcases sends undisturbed leads with ⟨unsent, -⟩ | ⟨-, executed⟩
      · exact unsent
      · exact absurd executed traded

/-- A trade whose cycle has an outcome is settled, if there is one. -/
theorem Standing.settled_of_ok {o : Outcome} (h : t.Standing height (.finished l) s)
    (returned : l.ending = .ok o) : t.HasSent height (· = []) (.finished l) ∨
      t.HasSent height t.WholeTrade (.finished l) ∧ t.SettledAt height s := by
  cases h with
  | untraded unsent => exact .inl unsent
  | settled sent traded settled => exact .inr ⟨sent, settled⟩
  | late ending => cases ending.symm.trans returned

end Trader

/-! ### The end of a block -/

/-- A block has returned. -/
def Occurrence.returns : Occurrence → Bool
  | .ended (.ok _) => true
  | _ => false

theorem Occurrence.exists_of_returns {o : Occurrence} (h : o.returns = true) :
    ∃ report, o = .ended (.ok report) := by
  cases o with
  | ended r =>
    cases r with
    | ok report => exact ⟨report, rfl⟩
    | error a => cases h
  | _ => cases h

namespace Session

variable {s s₀ s₁ : Session σ} {log : List Occurrence} {permit height : Nat}
  {refreshed : List Nat} {fleet : Fleet Landing} {outcomes : List PairOutcome}

/-- A block whose pairs trade changes nothing at its end. It unwinds with a cycle that has unwound,
or it returns with the outcomes of all cycles. -/
theorem ended_of_trading (one : s.flights = [(permit, .trading height refreshed fleet outcomes)])
    (held : s.guard.held = some permit) {m : Move σ} {r : Except Abort Report}
    (ended : .ended r ∈ (s.happen m).2) :
    (s.happen m).1.scene.stores = s.scene.stores ∧
      ((∃ a, r = .error a ∧ outcomesOf fleet.finished = .error a) ∨
        fleet.isDone ∧ ∃ more, outcomesOf fleet.finished = .ok more ∧
          r = .ok (.processed height refreshed (sortOutcomes (outcomes ++ more)))) := by
  cases m with
  | arrive e => simp [Session.happen, arrive_of_held e held] at ended
  | feed shelf => cases ended
  | alter f => cases ended
  | resume post permit' =>
    cases found : s.flight? permit' with
    | none =>
      rw [happen_resume_of_none found] at ended
      cases ended
    | some f =>
      obtain rfl := permit_eq_of_one one found
      rw [happen_resume one held, Flight.step] at ended ⊢
      cases proceeds : fleet.proceed? s.network post s.scene with
      | some next => simp [proceeds, Flight.takenIn] at ended
      | none =>
        simp only [proceeds, Flight.collectOutcomes, Flight.takenIn] at ended ⊢
        cases landings : outcomesOf fleet.finished with
        | error a =>
          simp only [landings, List.map_nil, List.nil_append, List.mem_singleton,
            Occurrence.ended.injEq] at ended ⊢
          exact ⟨stores_drop .., .inl ⟨a, ended, rfl⟩⟩
        | ok more =>
          by_cases last : fleet.isDone
          · simp only [landings, if_pos last, List.map_nil, List.nil_append, List.mem_singleton,
              Occurrence.ended.injEq] at ended ⊢
            exact ⟨trivial, .inr ⟨last, more, rfl, ended⟩⟩
          · simp [landings, last] at ended

/-- After any history of a session whose pairs were listed, the cycles of a block that trades stand
as their tasks tell: each pair is at work in the fleet or has landed, and one that has landed has
sent nothing, or is settled, or has no height to rest until. When the block returns, nobody is at
work any more, and each pair has sent nothing or is settled: it has sent both legs and its claims,
its ledger is empty, and it rests. When the block unwinds, some cycle has unwound; those at work are
dropped as they stand, and nothing is changed for them any more. -/
theorem trades_settled {settings : Settings} {moves : List (Move σ)}
    (listed : s₁.list settings = (s₀, .ok ())) (happened : s₀.history moves = (s, log))
    (one : s.flights = [(permit, .trading height refreshed fleet outcomes)]) :
    ∃ (base : Cooldowns) (atWork : List (Trader × Waiting Landing))
        (landed : List (Trader × Landing)),
      (atWork.map (·.1) ++ landed.map (·.1)).Perm s₀.traders ∧
      (atWork.map (·.2)).Perm (fleet.inLine ++ fleet.waiting) ∧
      (∃ earlier, landed.map (·.2) = earlier ++ fleet.finished ∧
        outcomesOf earlier = .ok outcomes) ∧
      (∀ m ∈ atWork, m.1.Standing height (.waiting m.2) s.scene.stores ∧
        m.1.Underway (m.1.SharesName s₀.traders) height base m.2 s.scene.stores) ∧
      (∀ m ∈ landed, m.1.Standing height (.finished m.2) s.scene.stores ∧
        m.1.Landed (m.1.SharesName s₀.traders) height base m.2 s.scene.stores) ∧
      ∀ move r, .ended r ∈ (s.happen move).2 →
        (s.happen move).1.scene.stores = s.scene.stores ∧
        match r with
        | .error a => ∃ m ∈ landed, m.2.ending = .error a
        | .ok report => atWork = [] ∧
          (∃ all, outcomesOf (landed.map (·.2)) = .ok all ∧
            report = .processed height refreshed (sortOutcomes all)) ∧
          ∀ m ∈ landed, m.1.HasSent height (· = []) (.finished m.2) ∨
            m.1.HasSent height m.1.WholeTrade (.finished m.2) ∧
              m.1.SettledAt height (s.happen move).1.scene.stores := by
  have traders : s.traders = s₀.traders := by
    rw [← s₀.traders_history moves, happened]
  obtain ⟨companions, starts⟩ := companions_list listed
  obtain ⟨base, starts⟩ := starts.history companions moves
  rw [happened] at starts
  obtain ⟨height', attends⟩ := starts.attends (by simp [one])
  obtain ⟨rfl, held, atWork, landed, roster⟩ := attends.roster one
  obtain ⟨programs, results, underway, done, all⟩ := roster
  rw [traders] at underway done all
  refine ⟨base, atWork, landed, all, programs, results,
    fun m working => ⟨(underway m working).standing, underway m working⟩,
    fun m among => ⟨(done m among).standing, done m among⟩, fun move r atEnd => ?_⟩
  obtain ⟨earlier, results, collected⟩ := results
  obtain ⟨same, ⟨a, rfl, unwound⟩ | ⟨last, more, returned, rfl⟩⟩ := ended_of_trading one held atEnd
  · obtain ⟨l, finished, ending⟩ := outcomesOf_eq_error unwound
    have landing : l ∈ landed.map (·.2) := results ▸ List.mem_append_right _ finished
    obtain ⟨m, among, rfl⟩ := List.mem_map.mp landing
    exact ⟨same, m, among, ending⟩
  · have outcomes_eq := outcomesOf_append collected returned
    rw [← results] at outcomes_eq
    refine ⟨same, Fleet.eq_nil_of_isDone programs last, ⟨_, outcomes_eq, rfl⟩, fun m among => ?_⟩
    obtain ⟨o, returned⟩ := outcomesOf_eq_ok outcomes_eq m.2 (List.mem_map_of_mem among)
    rw [same]
    exact (done m among).standing.settled_of_ok returned

/-- The only pair trades, and when its block returns the trade is settled. -/
theorem trades_settled_of_steepSession :
    ∃ s log permit height refreshed fleet outcomes report,
      (unlisted steepNetwork (false, []) [⟨.ofWord 15 1, .ofWord 100 0⟩]).list onePair =
        (steepSession false, .ok ()) ∧
      (steepSession false).history (wholeBlock 0 3 ⟨100, [1]⟩) = (s, log) ∧
      s.flights = [(permit, .trading height refreshed fleet outcomes)] ∧
      .ended (.ok report) ∈ (s.happen (.resume .foreground 0)).2 ∧
      (∀ t ∈ (steepSession false).traders, ∃ l, t.HasSent height (· = []) (.finished l) ∨
        t.HasSent height t.WholeTrade (.finished l) ∧
          t.SettledAt height (s.happen (.resume .foreground 0)).1.scene.stores) ∧
      (s.happen (.resume .foreground 0)).1.scene.stores.cooldowns.get? "OSMO/USDC" = some 105 := by
  have listed : (unlisted steepNetwork (false, []) [⟨.ofWord 15 1, .ofWord 100 0⟩]).list onePair =
    (steepSession false, .ok ()) := rfl
  have history : (steepSession false).history (wholeBlock 0 3 ⟨100, [1]⟩) = (_, _) := rfl
  have trading : ((steepSession false).history (wholeBlock 0 3 ⟨100, [1]⟩)).1.IsTrading := by
    decide +kernel
  have returned : ∃ o ∈ (((steepSession false).history (wholeBlock 0 3 ⟨100, [1]⟩)).1.happen
      (.resume .foreground 0)).2, o.returns = true := by
    decide +kernel
  obtain ⟨permit, height, refreshed, fleet, outcomes, one⟩ := trading
  obtain ⟨o, ended, isReturn⟩ := returned
  obtain ⟨report, rfl⟩ := Occurrence.exists_of_returns isReturn
  obtain ⟨base, atWork, landed, pairs, -, -, -, -, ends⟩ := trades_settled listed history one
  obtain ⟨-, rfl, -, settled⟩ := ends _ _ ended
  refine ⟨_, _, _, _, _, _, _, _, listed, history, one, ended, fun t among => ?_, by decide +kernel⟩
  obtain ⟨m, done, rfl⟩ := List.mem_map.mp (pairs.symm.subset among)
  exact ⟨m.2, settled m done⟩

/-! ### A cycle that is dropped -/

/-- Settings of two pairs, with everything else left at its default. -/
def twoPairs : Settings where
  chain := { usdDenom := "uusdc" }
  assets := [⟨"OSMO", "uosmo", some 6, none⟩, ⟨"EURC", "ueurc", some 6, none⟩,
    ⟨"USDC", "uusdc", some 6, none⟩]
  pairSymbols := [⟨"OSMO", "USDC"⟩, ⟨"OSMO", "EURC"⟩]

/-- A network on which messages to contracts take some time, and everything else none. The price of
one denomination is too large for an assessment. Its world tells what was sent. -/
def slowNetwork : Network (List String) where
  waits
    | .execute _ _, _ => [30]
    | _, _ => []
  answer
    | .orderBook _ quote, w => (w, .ok (if quote = "ueurc" then ⟨2, "other"⟩ else ⟨1, "book"⟩))
    | .venueMinimums _, w => (w, .ok {})
    | .activeTicks _, w => (w, .ok [1000000])
    | .restingOrders _ tick, w => (w, .ok [.fresh tick 7 "bid" "maker" (.ofWord 80000000 0)])
    | .venueBalances, w => (w, .ok (.ofList [("USDC", .ofWord 1000 0), ("EURC", .ofWord 1000 0)]))
    | .chainBalances _, w => (w, .ok [⟨"uosmo", .ofWord 30000000 0⟩])
    | .price denom _, w =>
      (w, .ok (if denom = "ueurc" then (Decimal.ofParts? (10 ^ 28) 0).getD .one else .one))
    | .simulate _ _, w => (w, .ok ⟨.ofWord 60000000 0, 200000⟩)
    | .placeOrder o, w => (w ++ [o.symbol], .error (.execution (.requestFailed "closed")))
    | .swap r, w => (w ++ [r.denomOut], .ok ⟨"SWAP", 0, ""⟩)
    | .execute _ message, w => (w ++ [message], .ok ⟨"CLAIM", 0, ""⟩)
    | _, w => (w, .error (.execution (.requestFailed "closed")))
  limitSecs := 10

/-- A session around it. The venue sells both pairs at three halves, and the chain buys at two. -/
def slowStart : Session (List String) :=
  (idle slowNetwork []).withShelf (.ofList
    [("OSMOUSDC", ⟨"OSMOUSDC", [], [⟨.ofWord 15 1, .ofWord 100 0⟩]⟩),
      ("OSMOEURC", ⟨"OSMOEURC", [], [⟨.ofWord 15 1, .ofWord 100 0⟩]⟩)])

/-- The session that trades both pairs, before its first block. -/
def slowSession : Session (List String) := (slowStart.list twoPairs).1

/-- The first pair has sent both legs and waits for its claims when the assessment of the second
pair's plan leaves the decimals. The block unwinds; no claim was sent, and the pair does not
rest. -/
theorem dropped_trade_unsettled : ∃ s log, slowStart.list twoPairs = (slowSession, .ok ()) ∧
    slowSession.history (wholeBlock 0 4 ⟨100, [1]⟩) = (s, log) ∧
    .ended (.error .multiplication) ∈ log ∧ s.flights.isEmpty ∧
    s.scene.world = ["OSMOUSDC", "uusdc"] ∧
    s.scene.stores.cooldowns.get? "OSMO/USDC" = none :=
  ⟨_, _, rfl, rfl, by decide +kernel⟩

end Session

end CrossBook.Engine
