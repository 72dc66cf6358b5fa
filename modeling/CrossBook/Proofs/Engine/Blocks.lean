import CrossBook.Proofs.Engine.Histories
import CrossBook.Proofs.Engine.Neighbours

/-!
# The course of a block

From the moment a block is admitted its pairs can be followed. While pools are read the cooldowns
stay as they were; then each pair is under way or has landed, with its course since the block began.
So it is until the block ends: with all pairs landed, or by unwinding, when those that are under way
are dropped.

## Main definitions

* `Engine.Session.Attends` — a block is in flight, and its pairs are followed
* `Engine.Session.Concludes` — a block has just ended, with what has become of its pairs
* `Engine.Session.Roster` — who is at work in a block, and who has landed
* `Engine.Session.Completes` — a block that is admitted at one session ends at another one

## Main results

* `Engine.Session.companions_list` — the pairs of a session that were listed are companions
* `Engine.Session.Attends.happen` — one move, while a block is in flight
* `Engine.Session.Completes.concludes` — what has become of the pairs of a block that ended
-/

namespace CrossBook.Engine

open Relation

variable {σ : Type}

/-- The outcomes of landings none of which unwinds, in their order. -/
theorem outcomesOf_append {landings more : List Landing} {outcomes others : List PairOutcome}
    (h : outcomesOf landings = .ok outcomes) (h' : outcomesOf more = .ok others) :
    outcomesOf (landings ++ more) = .ok (outcomes ++ others) := by
  induction landings generalizing outcomes with
  | nil =>
    obtain rfl := Except.ok.inj h
    exact h'
  | cons l rest ih =>
    rw [outcomesOf] at h
    rw [List.cons_append, outcomesOf]
    cases ending : l.ending with
    | error a => simp [ending] at h
    | ok o =>
      simp only [ending] at h ⊢
      cases landed : outcomesOf rest with
      | error a => simp [landed, Except.map] at h
      | ok os =>
        rw [landed] at h
        obtain rfl := Except.ok.inj h
        rw [ih landed]
        rfl

theorem Stores.cooldowns_settle (s : Stores) (refreshed : List Nat) (loads : List Load) :
    (s.settle refreshed loads).1.cooldowns = s.cooldowns := by
  induction loads generalizing s refreshed with
  | nil => rfl
  | cons l loads ih =>
    rw [settle]
    split
    · exact ih _ _
    · split_ifs
      · rfl
      · exact ih _ _

namespace Session

variable {s s' s'' : Session σ} {height : Nat} {base : Cooldowns} {t : Trader} {e : BlockEvent}

/-- A block is in flight. Either it reads pools and the cooldowns are as they were when it began, or
its pairs trade: some are followed in the fleet, and the others have landed there with the outcomes
collected so far. -/
inductive Attends (s : Session σ) (height : Nat) (base : Cooldowns) : Prop
  | reading {permit : Nat} {fleet : Fleet Load} {refreshed : List Nat}
      {left : List OrderBookAddress}
      (one : s.flights = [(permit, .refreshing height fleet refreshed)])
      (held : s.guard.held = some permit)
      (serves : fleet.Serves (readingPools s.network height) left s.scene.stores)
      (same : s.scene.stores.cooldowns = base)
  | trading {permit : Nat} {refreshed : List Nat} {fleet : Fleet Landing}
      {outcomes : List PairOutcome} {left : List Trader} {landed : List (Trader × Landing)}
      (one : s.flights = [(permit, .trading height refreshed fleet outcomes)])
      (held : s.guard.held = some permit)
      (serves : fleet.Serves (followedPairs s.network s.traders height base) left s.scene.stores)
      (done : ∀ m ∈ landed,
        m.1.Landed (m.1.SharesName s.traders) height base m.2 s.scene.stores)
      (collected : outcomesOf (landed.map (·.2)) = .ok outcomes)
      (all : (left ++ landed.map (·.1)).Perm s.traders)

/-- What has become of the pairs of a block that has just ended: all have landed, with outcomes; or
none has begun; or the block has unwound while some were under way. -/
inductive Concludes (s : Session σ) (height : Nat) (base : Cooldowns) : Except Abort Report → Prop
  | processed {refreshed : List Nat} {outcomes : List PairOutcome}
      {landed : List (Trader × Landing)}
      (done : ∀ m ∈ landed,
        m.1.Landed (m.1.SharesName s.traders) height base m.2 s.scene.stores)
      (collected : outcomesOf (landed.map (·.2)) = .ok outcomes)
      (all : (landed.map (·.1)).Perm s.traders) :
      Concludes s height base (.ok (.processed height refreshed (sortOutcomes outcomes)))
  | unread {a : Abort} (same : s.scene.stores.cooldowns = base) :
      Concludes s height base (.error a)
  | unwound {a : Abort} {dropped : List (Trader × Waiting Landing)}
      {landed : List (Trader × Landing)}
      (underway : ∀ m ∈ dropped,
        m.1.Underway (m.1.SharesName s.traders) height base m.2 s.scene.stores)
      (done : ∀ m ∈ landed,
        m.1.Landed (m.1.SharesName s.traders) height base m.2 s.scene.stores)
      (all : (dropped.map (·.1) ++ landed.map (·.1)).Perm s.traders) :
      Concludes s height base (.error a)

/-- After a block has ended none is in flight. -/
structure Idle (s : Session σ) : Prop where
  nobody : s.flights = []
  free : s.guard.held = none

/-- The session has the same pairs after a move. -/
theorem traders_happen (s : Session σ) (m : Move σ) : (s.happen m).1.traders = s.traders := by
  cases m with
  | arrive e =>
    rw [Session.happen, arrive]
    dsimp only
    split_ifs <;> rfl
  | feed shelf => rfl
  | alter f => rfl
  | resume post permit =>
    rw [Session.happen, resumeOnce]
    cases s.flight? permit with
    | none => rfl
    | some f =>
      dsimp only
      rcases f.step s.network s.traders post s.scene with ⟨scene, _ | _⟩ <;> rfl

/-- What one move does to a block in flight. Pairs may be put to rest, and no other block is
admitted; the block is still in flight, or it has just ended. -/
structure Proceeds (s s' : Session σ) (seen : List Occurrence) (height : Nat) (base : Cooldowns) :
    Prop where
  rests : ∀ t ∈ s.traders,
    Trader.Sees True t height s.scene.stores.cooldowns s'.scene.stores.cooldowns
  unadmitted : ∀ e, .admitted e ∉ seen
  goes : (∀ r, .ended r ∉ seen) ∧ s'.Attends height base ∨
    ∃ (loads : List Load) (r : Except Abort Report), seen = loads.map .read ++ [.ended r] ∧
      s'.Idle ∧ s'.Concludes height base r

section Reading

variable {permit : Nat} {fleet : Fleet Load} {refreshed : List Nat} {left : List OrderBookAddress}
  (post : Post) (one : s.flights = [(permit, .refreshing height fleet refreshed)])
  (held : s.guard.held = some permit)
  (serves : fleet.Serves (readingPools s.network height) left s.scene.stores)
  (same : s.scene.stores.cooldowns = base)

include one held serves same

theorem proceeds_of_reading :
    s.Proceeds (s.happen (.resume post permit)).1 (s.happen (.resume post permit)).2 height
      base := by
  rw [happen_resume one held, Flight.step]
  cases proceeds : fleet.proceed? s.network post s.scene with
  | some next =>
    obtain ⟨scene, fleet'⟩ := next
    obtain ⟨serves, changes⟩ := serves.proceed (readingPools_apart _) proceeds
    have stores_eq := eq_of_reading changes
    rw [takenIn_of_proceed proceeds]
    refine ⟨fun t _ => .inl (by dsimp only; rw [stores_eq]), by simp, .inl ⟨by simp, ?_⟩⟩
    exact .reading rfl held serves (by dsimp only; rw [stores_eq, same])
  | none =>
    have kept := s.scene.stores.cooldowns_settle refreshed fleet.finished
    obtain ⟨still, ended, serving, -, -, -, done⟩ := serves.collect
    dsimp only [Flight.collectLoads]
    rcases settled : s.scene.stores.settle refreshed fleet.finished with ⟨stores, a | all⟩ <;>
      rw [settled] at kept
    · refine ⟨fun t _ => .inl ?_, by simp, .inr ⟨_, _, rfl, ⟨rfl, rfl⟩, .unread ?_⟩⟩
      · dsimp only
        rw [stores_drop, kept]
      · dsimp only
        rw [stores_drop, kept, same]
    · dsimp only
      split_ifs with finished
      · refine ⟨fun t _ => .inl (congrArg (·.get? t.name) kept), by simp, .inl ⟨by simp, ?_⟩⟩
        have serves : (Fleet.launch (s.traders.map fun t => t.takeOff height)).Serves
            (followedPairs s.network s.traders height base) s.traders stores :=
          Fleet.serves_launch fun t _ => ⟨fun _ _ _ => t.acts_takeOff _ _,
            .inLine (.inl (congrArg (·.get? t.name) (kept.trans same)))⟩
        have begun : s.traders ++ ([] : List (Trader × Landing)).map (·.1) = s.traders :=
          List.append_nil _
        exact .trading rfl held serves (by simp) rfl (.of_eq begun)
      · refine ⟨fun t _ => .inl (congrArg (·.get? t.name) kept), by simp, .inl ⟨by simp, ?_⟩⟩
        exact .reading rfl held (serves_reading_lasts serving) (kept.trans same)

end Reading

/-- Who is at work in a block whose pairs trade, and who has landed there: these are all pairs, each
with its course since the block began. -/
structure Roster (s : Session σ) (height : Nat) (base : Cooldowns) (fleet : Fleet Landing)
    (outcomes : List PairOutcome) (atWork : List (Trader × Waiting Landing))
    (landed : List (Trader × Landing)) : Prop where
  programs : (atWork.map (·.2)).Perm (fleet.inLine ++ fleet.waiting)
  results : ∃ earlier, landed.map (·.2) = earlier ++ fleet.finished ∧
    outcomesOf earlier = .ok outcomes
  underway : ∀ m ∈ atWork,
    m.1.Underway (m.1.SharesName s.traders) height base m.2 s.scene.stores
  done : ∀ m ∈ landed, m.1.Landed (m.1.SharesName s.traders) height base m.2 s.scene.stores
  all : (atWork.map (·.1) ++ landed.map (·.1)).Perm s.traders

section Trading

variable {permit : Nat} {refreshed : List Nat} {fleet : Fleet Landing}
  {outcomes : List PairOutcome} {left : List Trader} {landed : List (Trader × Landing)}
  (companions : Companions s.traders) (post : Post)
  (one : s.flights = [(permit, .trading height refreshed fleet outcomes)])
  (held : s.guard.held = some permit)
  (serves : fleet.Serves (followedPairs s.network s.traders height base) left s.scene.stores)
  (done : ∀ m ∈ landed, m.1.Landed (m.1.SharesName s.traders) height base m.2 s.scene.stores)
  (collected : outcomesOf (landed.map (·.2)) = .ok outcomes)
  (all : (left ++ landed.map (·.1)).Perm s.traders)

include all in
/-- The pairs whose cycles have just ended have landed, too. -/
theorem perm_landed_append {still : List Trader} {ended : List (Trader × Landing)}
    (jobs : (still ++ ended.map (·.1)).Perm left) :
    (still ++ (landed ++ ended).map (·.1)).Perm s.traders := by
  rw [List.map_append]
  refine (List.perm_append_comm.append_left still).trans ?_
  rw [← List.append_assoc]
  exact (jobs.append_right _).trans all

include serves done collected all

/-- The pairs that a fleet follows, and those whose outcomes were collected before. -/
theorem exists_roster : ∃ atWork landed, s.Roster height base fleet outcomes atWork landed := by
  obtain ⟨atWork, ended, assigned, jobs⟩ := serves
  refine ⟨atWork, landed ++ ended, assigned.programs, ⟨landed.map (·.2), ?_, collected⟩,
    fun m working => (assigned.holds m working).2,
    List.forall_mem_append.mpr ⟨done, assigned.ensures⟩, perm_landed_append all jobs⟩
  rw [List.map_append, assigned.results]

include companions one held

theorem proceeds_of_trading :
    s.Proceeds (s.happen (.resume post permit)).1 (s.happen (.resume post permit)).2 height
      base := by
  rw [happen_resume one held, Flight.step]
  obtain ⟨among, different, others⟩ := companions.split all
  cases proceeds : fleet.proceed? s.network post s.scene with
  | some next =>
    obtain ⟨scene, fleet'⟩ := next
    obtain ⟨serves, changes⟩ :=
      serves.proceed (followedPairs_apart companions among different) proceeds
    refine ⟨fun t ht => companions.sees among changes ht, by simp [Flight.takenIn],
      .inl ⟨by simp [Flight.takenIn], .trading rfl held serves (fun m earlier => ?_) collected all⟩⟩
    have job : m.1 ∈ landed.map (·.1) := List.mem_map_of_mem earlier
    exact companions.landed among changes (all.subset (List.mem_append_right _ job))
      (fun t working => others t working m.1 job) (done m earlier)
  | none =>
    dsimp only [Flight.collectOutcomes]
    rcases landings : outcomesOf fleet.finished with a | more
    · -- The block unwinds, and the programs that are left are dropped.
      obtain ⟨atWork, landed, roster⟩ := exists_roster serves done collected all
      refine ⟨fun t _ => .inl (by rw [stores_drop]), by simp [Flight.takenIn],
        .inr ⟨[], _, rfl, ⟨rfl, rfl⟩, .unwound (fun m working => ?_) (fun m among => ?_)
          roster.all⟩⟩
      · dsimp only
        rw [stores_drop]
        exact roster.underway m working
      · dsimp only
        rw [stores_drop]
        exact roster.done m among
    · obtain ⟨still, ended, serving, results, ensured, perm, finished⟩ := serves.collect
      have done := List.forall_mem_append.mpr ⟨done, ensured⟩
      have all := perm_landed_append all perm
      have collected : outcomesOf ((landed ++ ended).map (·.2)) = .ok (outcomes ++ more) := by
        rw [List.map_append, results]
        exact outcomesOf_append collected landings
      dsimp only
      split_ifs with last
      · obtain rfl := finished last
        exact ⟨fun t _ => .refl .., by simp [Flight.takenIn],
          .inr ⟨[], _, rfl, ⟨rfl, rfl⟩, .processed done collected all⟩⟩
      · exact ⟨fun t _ => .refl .., by simp [Flight.takenIn],
          .inl ⟨by simp [Flight.takenIn], .trading rfl held serving done collected all⟩⟩

end Trading

/-- When the pairs of a block trade, they are all at work or have landed. -/
theorem Attends.roster {height' permit : Nat} {refreshed : List Nat} {fleet : Fleet Landing}
    {outcomes : List PairOutcome} (h : s.Attends height' base)
    (one : s.flights = [(permit, .trading height refreshed fleet outcomes)]) :
    height = height' ∧ s.guard.held = some permit ∧
      ∃ atWork landed, s.Roster height base fleet outcomes atWork landed := by
  cases h with
  | reading reading => exact absurd (reading.symm.trans one) (by simp)
  | trading trading held serves done collected all =>
    obtain ⟨⟨⟩, -⟩ := List.cons.inj (trading.symm.trans one)
    exact ⟨rfl, held, exists_roster serves done collected all⟩

/-! ### All moves -/

/-- A block in flight is followed on when no ledger and no cooldown is different. -/
theorem Attends.keep (h : s.Attends height base) (traders : s'.traders = s.traders)
    (network : s'.network = s.network) (flights : s'.flights = s.flights)
    (held : s'.guard.held = s.guard.held)
    (same : ∀ number, s'.scene.stores.ledger number = s.scene.stores.ledger number)
    (kept : s'.scene.stores.cooldowns = s.scene.stores.cooldowns) : s'.Attends height base := by
  have meanwhile (shared : Prop) (t : Trader) :
      (t.beside shared height).Meanwhile s.scene.stores s'.scene.stores :=
    ⟨same _, by rw [kept]; exact .refl ..⟩
  cases h with
  | reading one holder serves start =>
    rw [← network] at serves
    exact .reading (flights.trans one) (held.trans holder) (serves_reading_lasts serves)
      (kept.trans start)
  | trading one holder serves done collected all =>
    refine .trading (flights.trans one) (held.trans holder) ?_ ?_ collected
      (by rw [traders]; exact all)
    · rw [network, traders]
      exact serves.lasts
        (fun t _ w ⟨keeps, underway⟩ => ⟨keeps.lasts trivial, underway.lasts (meanwhile _ t)⟩)
        fun t _ l landed => landed.lasts (meanwhile _ t)
    · rw [traders]
      exact fun m among => (done m among).lasts (meanwhile _ _)

theorem Attends.held (h : s.Attends height base) : s.guard.held ≠ none := by
  cases h <;> simp [*]

/-- One move, while a block is in flight. -/
theorem Attends.happen (h : s.Attends height base) (companions : Companions s.traders)
    (m : Move σ) : s.Proceeds (s.happen m).1 (s.happen m).2 height base := by
  have unchanged {seen : List Occurrence} {s' : Session σ} (attends : s'.Attends height base)
      (kept : s'.scene.stores.cooldowns = s.scene.stores.cooldowns)
      (unadmitted : ∀ e, .admitted e ∉ seen) (unended : ∀ r, .ended r ∉ seen) :
      s.Proceeds s' seen height base :=
    ⟨fun t _ => .inl (by rw [kept]), unadmitted, .inl ⟨unended, attends⟩⟩
  cases m with
  | arrive e =>
    cases held : s.guard.held with
    | none => exact absurd held h.held
    | some permit =>
      rw [Session.happen, arrive_of_held e held]
      exact unchanged (h.keep rfl rfl rfl held.symm (fun _ => rfl) rfl) rfl (by simp) (by simp)
  | feed shelf =>
    exact unchanged (h.keep rfl rfl rfl rfl (fun _ => rfl) rfl) rfl (fun _ => List.not_mem_nil)
      fun _ => List.not_mem_nil
  | alter f =>
    exact unchanged (h.keep rfl rfl rfl rfl (fun _ => rfl) rfl) rfl (fun _ => List.not_mem_nil)
      fun _ => List.not_mem_nil
  | resume post permit =>
    cases found : s.flight? permit with
    | none =>
      rw [happen_resume_of_none found]
      exact unchanged h rfl (by simp) (by simp)
    | some f =>
      cases h with
      | reading one held serves same =>
        obtain rfl := permit_eq_of_one one found
        exact proceeds_of_reading post one held serves same
      | trading one held serves done collected all =>
        obtain rfl := permit_eq_of_one one found
        exact proceeds_of_trading companions post one held serves done collected all

/-- A block that arrives at an idle session is admitted. -/
theorem Idle.arrive (h : s.Idle) (e : BlockEvent) : (s.happen (.arrive e)).2 = [.admitted e] ∧
    (s.happen (.arrive e)).1.scene.stores.cooldowns = s.scene.stores.cooldowns ∧
    (s.happen (.arrive e)).1.Attends e.height s.scene.stores.cooldowns := by
  rw [happen_arrive_of_idle e h.nobody h.free]
  exact ⟨rfl, rfl, .reading rfl rfl (serves_reading_launch (s.targets e) s.scene.stores) rfl⟩

/-- Unless a block arrives, an idle session stays idle, and its pairs rest as long as before. -/
theorem Idle.happen (h : s.Idle) (m : Move σ) :
    (s.happen m).1.scene.stores.cooldowns = s.scene.stores.cooldowns ∧
      (∀ r, .ended r ∉ (s.happen m).2) ∧
      ((s.happen m).1.Idle ∧ (∀ e, .admitted e ∉ (s.happen m).2) ∨
        ∃ e, m = .arrive e ∧ (s.happen m).2 = [.admitted e] ∧
          (s.happen m).1.Attends e.height s.scene.stores.cooldowns) := by
  cases m with
  | arrive e =>
    obtain ⟨seen, kept, attends⟩ := h.arrive e
    exact ⟨kept, by simp [seen], .inr ⟨e, rfl, seen, attends⟩⟩
  | feed shelf =>
    exact ⟨rfl, fun _ => List.not_mem_nil, .inl ⟨⟨h.nobody, h.free⟩, fun _ => List.not_mem_nil⟩⟩
  | alter f =>
    exact ⟨rfl, fun _ => List.not_mem_nil, .inl ⟨⟨h.nobody, h.free⟩, fun _ => List.not_mem_nil⟩⟩
  | resume post permit =>
    have none : s.flight? permit = none := by simp [flight?, h.nobody]
    rw [happen_resume_of_none none]
    exact ⟨rfl, fun _ => List.not_mem_nil, .inl ⟨h, fun _ => List.not_mem_nil⟩⟩

/-! ### Whole blocks -/

/-- The cooldowns of an idle session, or those with which the block in flight began. -/
inductive Starts (s : Session σ) (base : Cooldowns) : Prop
  | idle (idle : s.Idle) (same : s.scene.stores.cooldowns = base)
  | inFlight {height : Nat} (attends : s.Attends height base)

/-- While something is in flight the pairs of a block are followed. -/
theorem Starts.attends (h : s.Starts base) (flies : s.flights ≠ []) :
    ∃ height, s.Attends height base := by
  cases h with
  | idle idle => exact absurd idle.nobody flies
  | inFlight attends => exact ⟨_, attends⟩

/-- One move, whether a block is in flight or not: the cooldowns to start from are the same until
a block ends. -/
theorem Starts.happen (h : s.Starts base) (companions : Companions s.traders) (m : Move σ) :
    (∀ r, .ended r ∉ (s.happen m).2) ∧ (s.happen m).1.Starts base ∨
      ∃ (loads : List Load) (r : Except Abort Report) (height : Nat),
        (s.happen m).2 = loads.map .read ++ [.ended r] ∧ (s.happen m).1.Idle ∧
        (s.happen m).1.Concludes height base r := by
  cases h with
  | idle idle same =>
    obtain ⟨kept, unended, ⟨idle, -⟩ | ⟨e, -, -, attends⟩⟩ := idle.happen m
    · exact .inl ⟨unended, .idle idle (kept.trans same)⟩
    · exact .inl ⟨unended, .inFlight (same ▸ attends)⟩
  | inFlight attends =>
    rcases (attends.happen companions m).goes with ⟨unended, attends⟩ | ⟨loads, r, seen, concludes⟩
    · exact .inl ⟨unended, .inFlight attends⟩
    · exact .inr ⟨loads, r, _, seen, concludes⟩

/-- The pairs of a session that were listed are companions, and none of them is at rest. -/
theorem companions_list {settings : Settings} (h : s.list settings = (s', .ok ())) :
    Companions s'.traders ∧ s'.Starts .empty := by
  obtain ⟨_, listings, scene, -, -, rfl⟩ := list_eq_ok_iff.mp h
  refine ⟨⟨different_tradersOf _ _, fun t among t' among' => ?_⟩, .idle ⟨rfl, rfl⟩ rfl⟩
  exact (settings_tradersOf among).trans (settings_tradersOf among').symm

/-- A block that is admitted at one session ends at another one. -/
def Completes (s : Session σ) (e : BlockEvent) (s' : Session σ) (r : Except Abort Report) : Prop :=
  ∃ (moves : List (Move σ)) (m : Move σ) (mid last : List Occurrence) (s₁ : Session σ),
    s.history (.arrive e :: moves) = (s₁, .admitted e :: mid) ∧ (∀ r, .ended r ∉ mid) ∧
      s₁.happen m = (s', last) ∧ .ended r ∈ last

/-! ### How long pairs rest -/

/-- A pair whose name nobody shares rests as long as before, or has been put to rest by a trade,
where each pair is under way or has landed. -/
theorem advances_of_all {atWork : List (Trader × Waiting Landing)}
    {landed : List (Trader × Landing)}
    (underway : ∀ m ∈ atWork,
      m.1.Underway (m.1.SharesName s.traders) height base m.2 s.scene.stores)
    (done : ∀ m ∈ landed, m.1.Landed (m.1.SharesName s.traders) height base m.2 s.scene.stores)
    (all : (atWork.map (·.1) ++ landed.map (·.1)).Perm s.traders)
    (among : t ∈ s.traders) (alone : ¬ t.SharesName s.traders) :
    t.Advances height base s.scene.stores.cooldowns := by
  rcases List.mem_append.mp (all.symm.subset among) with job | job
  · obtain ⟨m, working, rfl⟩ := List.mem_map.mp job
    exact .inl ((underway m working).rested alone)
  · obtain ⟨m, ended, rfl⟩ := List.mem_map.mp job
    exact (done m ended).advances alone

/-- So it is while a block runs. -/
theorem Attends.advances (h : s.Attends height base) (among : t ∈ s.traders)
    (alone : ¬ t.SharesName s.traders) : t.Advances height base s.scene.stores.cooldowns := by
  cases h with
  | reading one held serves same => exact .inl (by rw [same])
  | trading one held serves done collected all =>
    obtain ⟨atWork, landed, roster⟩ := exists_roster serves done collected all
    exact advances_of_all roster.underway roster.done roster.all among alone

/-- So it is when a block has ended. -/
theorem Concludes.advances {r : Except Abort Report} (h : s.Concludes height base r)
    (among : t ∈ s.traders) (alone : ¬ t.SharesName s.traders) :
    t.Advances height base s.scene.stores.cooldowns := by
  cases h with
  | processed done collected all =>
    exact advances_of_all (fun m (nobody : m ∈ []) => (List.not_mem_nil nobody).elim) done all among
      alone
  | unread same => exact .inl (by rw [same])
  | unwound underway done all => exact advances_of_all underway done all among alone

theorem history_singleton (s : Session σ) (m : Move σ) : s.history [m] = s.happen m := rfl

theorem traders_history (s : Session σ) (moves : List (Move σ)) :
    (s.history moves).1.traders = s.traders := by
  induction moves using List.reverseRecOn with
  | nil => rfl
  | append_singleton moves m ih =>
    rw [history_concat]
    exact (traders_happen _ m).trans ih

theorem Starts.history (h : s.Starts base) (companions : Companions s.traders)
    (moves : List (Move σ)) : ∃ base', (s.history moves).1.Starts base' := by
  induction moves using List.reverseRecOn with
  | nil => exact ⟨base, h⟩
  | append_singleton moves m ih =>
    obtain ⟨base', before⟩ := ih
    rw [history_concat]
    rw [← s.traders_history moves] at companions
    rcases before.happen companions m with ⟨-, starts⟩ | ⟨_, _, _, -, idle, -⟩
    · exact ⟨_, starts⟩
    · exact ⟨_, .idle idle rfl⟩

/-- As long as a block does not end, it is in flight and its pairs are followed. -/
theorem Attends.history (h : s.Attends height base) (companions : Companions s.traders)
    {moves : List (Move σ)} (unended : ∀ r, .ended r ∉ (s.history moves).2) :
    (s.history moves).1.Attends height base := by
  induction moves using List.reverseRecOn with
  | nil => exact h
  | append_singleton moves m ih =>
    rw [history_concat] at unended ⊢
    have before := ih fun r among => unended r (List.mem_append_left _ among)
    rw [← s.traders_history moves] at companions
    rcases (before.happen companions m).goes with ⟨-, attends⟩ | ⟨loads, r, seen, -⟩
    · exact attends
    · refine absurd (List.mem_append_right _ ?_) (unended r)
      rw [seen]
      exact List.mem_append_right _ List.mem_cons_self

/-- A block that is admitted finds the session idle, since one that arrives while another is in
flight is turned away. -/
theorem Starts.arrive (starts : s.Starts base) {seen mid : List Occurrence}
    (log_eq : (s.happen (.arrive e)).2 ++ seen = .admitted e :: mid) : s.Idle ∧ seen = mid ∧
      (s.happen (.arrive e)).1.Attends e.height s.scene.stores.cooldowns := by
  cases starts with
  | idle idle =>
    obtain ⟨admitted, -, attends⟩ := idle.arrive e
    rw [admitted] at log_eq
    exact ⟨idle, (List.cons.inj log_eq).2, attends⟩
  | inFlight attends =>
    obtain ⟨permit, held⟩ := Option.ne_none_iff_exists'.mp attends.held
    rw [Session.happen, arrive_of_held e held] at log_eq
    simp at log_eq

/-- A block that is admitted finds the session idle and leaves it so, with what has become of its
pairs. -/
theorem Completes.concludes {r : Except Abort Report} (h : s.Completes e s' r)
    (companions : Companions s.traders) (starts : s.Starts base) :
    s.Idle ∧ s'.Idle ∧ s'.traders = s.traders ∧
      s'.Concludes e.height s.scene.stores.cooldowns r := by
  obtain ⟨moves, m, mid, last, s₁, happened, unended, ends, ended⟩ := h
  rw [← List.singleton_append, history_append, history_singleton] at happened
  obtain ⟨rfl, log_eq⟩ := Prod.mk.inj happened
  obtain ⟨idle, rfl, attends⟩ := starts.arrive log_eq
  have traders := (traders_history _ moves).trans (s.traders_happen (.arrive e))
  have attends := attends.history (by rwa [traders_happen]) unended
  have proceeds := attends.happen (traders.symm ▸ companions) m
  have traders := (traders_happen _ m).trans traders
  rw [ends] at proceeds traders
  -- The last move ends the block, so it does not go on.
  rcases proceeds.goes with ⟨going, -⟩ | ⟨loads, r', seen, idle', concludes⟩
  · exact absurd ended (going r)
  · obtain rfl : r = r' := by
      rw [show last = _ from seen] at ended
      simpa using ended
    exact ⟨idle, idle', traders, concludes⟩

end Session

end CrossBook.Engine
