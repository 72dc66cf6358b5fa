import CrossBook.Proofs.Engine.Courses
import CrossBook.Proofs.Engine.Cycle

/-!
# How far a cycle has come

A cycle that finds its pair at rest ends at once. Any other first asks for balances, and from then
on it goes through few stages: it has not committed to anything, or it waits for both legs, or for
the message with its claims, or it has ended. Only its end puts the pair to rest.

## Main definitions

* `Engine.Trader.Stage` — the stages of a cycle whose pair is not at rest
* `Engine.Trader.Passes` — a stage, with the cooldowns kept until the end

## Main results

* `Engine.Trader.leads_cycle_of_blocked` — a cycle whose pair is at rest ends at once
* `Engine.Trader.leads_cycle_of_free` — any other cycle has come to one of the stages
-/

namespace CrossBook.Engine

open Trade Program

/-- The task has ended in an outcome. -/
def Task.HasOutcome (task : Task Ending) : Prop := ∃ o, task = .finished (.ok o)

namespace Trader

variable {t : Trader} {surroundings : Surroundings} {Kept : Cooldowns → Cooldowns → Prop}
  {height n : Nat} {s s₁ s' : Stores} {trace : List Exchange} {task : Task Ending} {p : Plan}
  {order : MarketOrder} {swap : SwapRequest}

/-- The stages of a cycle whose pair is not at rest: it waits before it has committed to anything,
for both legs, or for its claims; it has unwound without committing to anything, or for want of a
height to rest until; or it has an outcome. -/
inductive Stage (t : Trader) (height : Nat) : List Exchange → Task Ending → Prop
  | looking {trace : List Exchange} {w : Waiting Ending} (uncommitted : commitments trace = [])
      (silent : w.calls.filter Call.commits = []) : Stage t height trace (.waiting w)
  | sending {trace : List Exchange} {w : Waiting Ending} (uncommitted : commitments trace = [])
      (order : MarketOrder) (swap : SwapRequest)
      (calls : w.calls = [.placeOrder order, .swap swap]) : Stage t height trace (.waiting w)
  | claiming {trace : List Exchange} {w : Waiting Ending} (order : MarketOrder)
      (swap : SwapRequest) (claims : List Claim)
      (sent : commitments trace = [.placeOrder order, .swap swap])
      (calls : w.calls = [.execute t.listing.address.contract (batchText claims)]) :
      Stage t height trace (.waiting w)
  | unwound {trace : List Exchange} {a : Abort} (uncommitted : commitments trace = []) :
      Stage t height trace (.finished (.error a))
  | beyond {trace : List Exchange} (late : twoTo 64 ≤ t.restsUntil height) :
      Stage t height trace (.finished (.error .wordAddition))
  | landed {trace : List Exchange} {o : Outcome} (awake : ∀ until_, o ≠ .coolingDown until_) :
      Stage t height trace (.finished (.ok o))

theorem Stage.after {e : Exchange} (h : t.Stage height trace task)
    (silent : e.calls.filter Call.commits = []) : t.Stage height (e :: trace) task := by
  have same : commitments (e :: trace) = commitments trace := by rw [commitments_cons, silent]; rfl
  cases h with
  | looking uncommitted quiet => exact .looking (same.trans uncommitted) quiet
  | sending uncommitted order swap calls => exact .sending (same.trans uncommitted) order swap calls
  | claiming order swap claims sent calls =>
    exact .claiming order swap claims (same.trans sent) calls
  | unwound uncommitted => exact .unwound (same.trans uncommitted)
  | beyond late => exact .beyond late
  | landed awake => exact .landed awake

/-- A cycle whose pair is not at rest has come to a stage, and it has kept the cooldowns unless it
has an outcome. -/
structure Passes (t : Trader) (Kept : Cooldowns → Cooldowns → Prop) (height : Nat) (s : Stores)
    (trace : List Exchange) (task : Task Ending) (s' : Stores) : Prop where
  stage : t.Stage height trace task
  kept : ¬ task.HasOutcome → Kept s.cooldowns s'.cooldowns

/-- Others may have had their turns before a course goes on. -/
theorem Passes.later (undisturbed : t.Undisturbed surroundings Kept)
    (h : t.Passes Kept height s₁ trace task s') (meanwhile : surroundings.Meanwhile s s₁) :
    t.Passes Kept height s trace task s' where
  stage := h.stage
  kept open_ := undisturbed.trans _ _ _ (undisturbed.cooldowns _ _ meanwhile) (h.kept open_)

/-- Nothing about a course is different when it begins with a change of the ledger. -/
theorem Passes.ofLedger {f : Ledger → Ledger}
    (h : t.Passes Kept height (s.modifyLedger t.ledger f) trace task s') :
    t.Passes Kept height s trace task s' := ⟨h.stage, h.kept⟩

theorem Passes.after (undisturbed : t.Undisturbed surroundings Kept) {e : Exchange}
    (h : t.Passes Kept height s₁ trace task s') (silent : e.calls.filter Call.commits = [])
    (meanwhile : surroundings.Meanwhile s s₁) : t.Passes Kept height s (e :: trace) task s' :=
  Passes.later undisturbed ⟨h.stage.after silent, h.kept⟩ meanwhile

theorem passes_waiting (undisturbed : t.Undisturbed surroundings Kept) {w : Waiting Ending}
    (stage : t.Stage height trace (.waiting w)) (meanwhile : surroundings.Meanwhile s s') :
    t.Passes Kept height s trace (.waiting w) s' :=
  ⟨stage, fun _ => undisturbed.cooldowns _ _ meanwhile⟩

theorem passes_landed {o : Outcome} (awake : ∀ until_, o ≠ .coolingDown until_) :
    t.Passes Kept height s trace (.finished (.ok o)) s' :=
  ⟨.landed awake, fun open_ => absurd ⟨o, rfl⟩ open_⟩

/-! ### Ends -/

theorem leads_finish {o : Outcome} (awake : ∀ until_, o ≠ .coolingDown until_)
    (h : (t.finish o (n := n)).Leads surroundings s trace task s') :
    t.Passes Kept height s trace task s' := by
  obtain ⟨rfl, rfl, -⟩ := leads_done_iff.mp (leads_change_iff.mp h)
  exact passes_landed awake

theorem leads_fail (undisturbed : t.Undisturbed surroundings Kept) {f : Failure}
    (h : (t.fail height f (n := n)).Leads surroundings s trace task s') :
    t.Passes Kept height s trace task s' := by
  unfold fail at h
  split at h
  · obtain ⟨rfl, rfl, rfl⟩ := leads_done_iff.mp h
    exact ⟨.unwound rfl, fun _ => undisturbed.refl _⟩
  · split_ifs at h
    · obtain ⟨rfl, rfl, rfl⟩ := leads_done_iff.mp h
      exact ⟨.unwound rfl, fun _ => undisturbed.refl _⟩
    · exact leads_finish (fun _ same => by cases same) h

/-! ### The trade -/

/-- A cycle that has traded does not wait any more, and it unwinds only for want of a height to rest
until. -/
theorem leads_close (undisturbed : t.Undisturbed surroundings Kept) {legs : Legs}
    {flush : ClaimFlush} (before : List Exchange)
    (h : (t.close height p legs flush (n := n)).Leads surroundings s trace task s') :
    t.Passes Kept height s (before ++ trace) task s' := by
  unfold close at h
  cases rests : t.cooldownUntil height with
  | error f =>
    -- The trade is made, but there is no height to rest until: the cycle unwinds all the same.
    have late : twoTo 64 ≤ t.restsUntil height := by
      unfold cooldownUntil at rests
      dsimp only at rests
      split_ifs at rests with fits
      exact Nat.le_of_not_lt fits
    obtain rfl := cooldownUntil_eq_error rests
    rw [rests] at h
    obtain ⟨-, rfl, rfl⟩ := leads_done_iff.mp h
    exact ⟨.beyond late, fun _ => undisturbed.refl _⟩
  | ok until_ =>
    rw [rests] at h
    obtain ⟨-, rfl, -⟩ := leads_done_iff.mp (leads_change_iff.mp h)
    exact passes_landed fun _ same => by cases same

/-- Once both legs have come to something, a cycle waits for its claims at most. -/
theorem leads_claim (undisturbed : t.Undisturbed surroundings Kept) {legs : Legs}
    {before : List Exchange} (sent : commitments before = [.placeOrder order, .swap swap])
    (h : (t.claim height p legs).Leads surroundings s trace task s') :
    t.Passes Kept height s (before ++ trace) task s' := by
  have h := leads_change_iff.mp (leads_look_iff.mp h)
  split_ifs at h
  · exact (leads_close undisturbed before h).ofLedger
  · rcases leads_call h with
      ⟨w, rfl, rfl, calls, meanwhile⟩ | ⟨r, there, s₁, rest, rfl, meanwhile, h⟩
    · rw [List.append_nil]
      exact (passes_waiting undisturbed (.claiming order swap _ sent calls) meanwhile).ofLedger
    · rw [List.append_cons]
      exact ((leads_close undisturbed _ h).later undisturbed meanwhile).ofLedger

theorem leads_send (undisturbed : t.Undisturbed surroundings Kept)
    (h : (t.send height p order swap).Leads surroundings s trace task s') :
    t.Passes Kept height s trace task s' := by
  rcases leads_ask h with
    ⟨w, rfl, rfl, calls, meanwhile⟩ | ⟨answer, there, s₁, rest, rfl, meanwhile, h⟩
  · exact passes_waiting undisturbed (.sending rfl order swap calls) meanwhile
  · rcases answer with _ | ⟨venue, _ | ⟨chain, _ | _⟩⟩
    have sent : commitments [⟨[.placeOrder order, .swap swap], .untilAll,
        .cons venue (.cons chain .nil), there⟩] = [.placeOrder order, .swap swap] := rfl
    exact (leads_claim undisturbed sent h).later undisturbed meanwhile

/-! ### The way to a trade -/

theorem leads_weigh (undisturbed : t.Undisturbed surroundings Kept) {prices : PriceSheet}
    {simulation : SwapSimulation}
    (h : (t.weigh height p prices simulation).Leads surroundings s trace task s') :
    t.Passes Kept height s trace task s' := by
  rw [weigh] at h
  rcases verdict : t.verdict p prices simulation with f | ⟨profit, cost⟩ | ⟨order, swap⟩ <;>
    rw [verdict, act] at h
  · exact leads_fail undisturbed h
  · exact leads_finish (fun _ same => by cases same) h
  · exact leads_send undisturbed h

theorem leads_simulate (undisturbed : t.Undisturbed surroundings Kept) {prices : PriceSheet}
    (h : (t.simulate height p prices).Leads surroundings s trace task s') :
    t.Passes Kept height s trace task s' := by
  rw [simulate] at h
  rcases enough : t.shortfall p prices with f | _ | ⟨fill, minimum⟩ <;>
    rw [enough, simulateUnless] at h
  · exact leads_fail undisturbed h
  · rcases leads_call h with
      ⟨w, rfl, rfl, calls, meanwhile⟩ | ⟨r, there, s₁, rest, rfl, meanwhile, h⟩
    · exact passes_waiting undisturbed (.looking rfl (by rw [calls]; rfl)) meanwhile
    · rcases r with e | simulation
      · exact (leads_fail undisturbed h).after undisturbed rfl meanwhile
      · exact (leads_weigh undisturbed h).after undisturbed rfl meanwhile
  · exact leads_finish (fun _ same => by cases same) h

theorem leads_fetchPrices (undisturbed : t.Undisturbed surroundings Kept)
    (h : (t.fetchPrices height p).Leads surroundings s trace task s') :
    t.Passes Kept height s trace task s' := by
  rcases leads_ask h with
    ⟨w, rfl, rfl, calls, meanwhile⟩ | ⟨answer, there, s₁, rest, rfl, meanwhile, h⟩
  · exact passes_waiting undisturbed (.looking rfl (by rw [calls]; rfl)) meanwhile
  · rcases answer with e | ⟨_ | ⟨base, _ | ⟨quote, _ | ⟨fee, _ | _⟩⟩⟩⟩
    · exact (leads_fail undisturbed h).after undisturbed rfl meanwhile
    · exact (leads_simulate undisturbed h).after undisturbed rfl meanwhile

theorem leads_compare (undisturbed : t.Undisturbed surroundings Kept)
    {venue : Table String Decimal} {coins : List Coin}
    (h : (t.compare height venue coins).Leads surroundings s trace task s') :
    t.Passes Kept height s trace task s' := by
  rw [Trader.compare, leads_look_iff] at h
  rcases offer : t.prospect s venue coins with f | _ | _ | p <;> rw [offer, takeUp] at h
  · exact leads_fail undisturbed h
  · exact leads_finish (fun _ same => by cases same) h
  · exact leads_finish (fun _ same => by cases same) h
  · have h := leads_change_iff.mp h
    split_ifs at h
    · exact (leads_finish (fun _ same => by cases same) h).ofLedger
    · exact (leads_fetchPrices undisturbed h).ofLedger

/-! ### The cycle -/

/-- A cycle whose pair is at rest ends at once, and asks for nothing. -/
theorem leads_cycle_of_blocked {until_ : Nat}
    (blocked : s.cooldowns.blockedUntil t.name height = some until_)
    (h : (t.cycle height).Leads surroundings s trace task s') :
    trace = [] ∧ task = .finished (.ok (.coolingDown until_)) ∧ s'.cooldowns = s.cooldowns := by
  have h := leads_look_iff.mp h
  rw [blocked] at h
  obtain ⟨rfl, rfl, rfl⟩ := leads_done_iff.mp (leads_change_iff.mp h)
  exact ⟨rfl, rfl, rfl⟩

/-- A cycle whose pair is not at rest begins with balances, and comes to some stage. -/
theorem leads_cycle_of_free (undisturbed : t.Undisturbed surroundings Kept)
    (free : s.cooldowns.blockedUntil t.name height = none)
    (h : (t.cycle height).Leads surroundings s trace task s') :
    t.Passes Kept height s trace task s' := by
  have h := leads_look_iff.mp h
  rw [free] at h
  rcases leads_ask h with
    ⟨w, rfl, rfl, calls, meanwhile⟩ | ⟨answer, there, s₁, rest, rfl, meanwhile, h⟩
  · exact passes_waiting undisturbed (.looking rfl (by rw [calls]; rfl)) meanwhile
  · rcases answer with e | ⟨_ | ⟨venue, _ | ⟨coins, _ | _⟩⟩⟩
    · exact (leads_fail undisturbed h).after undisturbed rfl meanwhile
    · exact (leads_compare undisturbed h).after undisturbed rfl meanwhile

/-- The cycle has looked at its pair: it asked for balances before anything else. -/
def Looks (t : Trader) (trace : List Exchange) : Prop :=
  ∃ answer there rest, trace = ⟨[.venueBalances, .chainBalances t.settings.chain.accountAddress],
    .untilFailure, answer, there⟩ :: rest

theorem looks_of_free (free : s.cooldowns.blockedUntil t.name height = none) {ending : Ending}
    (h : (t.cycle height).Runs surroundings s trace ending s') : t.Looks trace := by
  have h := runs_look_iff.mp h
  rw [free] at h
  obtain ⟨answer, there, s₁, rest, rfl, -⟩ := runs_ask_iff.mp h
  exact ⟨answer, there, rest, rfl⟩

end Trader

end CrossBook.Engine
