import CrossBook.Proofs.Engine.Logs

/-!
# Histories of sessions

At most one block is in flight, and it holds the guard. Before its cycles begin it reads the pools
it has to read, each once; then the cycles of all pairs run, each beginning with an empty ledger if
the block before did not unwind. The orders of a pool are those that were read last. All of this
stays so in whatever order things happen to a session.

## Main definitions

* `Engine.Session.Stands` — how a session stands, given its log
* `Engine.Session.Orderly` — a session that stands as its log tells

## Main results

* `Engine.Session.list_eq_ok_iff` — what a session is whose pairs were listed
* `Engine.Session.orderly_list`, `Session.Orderly.history` — a session whose pairs were listed stands
  as its log tells after any history
* `Engine.Session.Orderly.becomes_process`, `becomes_overlap`, `becomes_follow` — blocks that are
  processed, overlap or follow each other have histories
-/

namespace CrossBook.Engine

variable {σ : Type}

/-! ### How a session stands -/

/-- One block is in flight and holds the guard, and it has not ended since it was admitted. -/
structure Session.InFlight (s : Session σ) (log : List Occurrence) (permit : Nat) (f : Flight)
    (before : List Occurrence) (e : BlockEvent) (after : List Occurrence) : Prop where
  one : s.flights = [(permit, f)]
  held : s.guard.held = some permit
  since : Since log before e after
  going : ∀ r, .ended r ∉ after

/-- How a session stands, given its log. No block is in flight and nobody holds the guard; or one
block is in flight, and either it still reads pools, or its cycles run. -/
inductive Session.Stands (s : Session σ) (log : List Occurrence) : Prop
  | idle (nobody : s.flights = []) (free : s.guard.held = none)
      (reads : ∀ before e after, Since log before e after → ∃ left,
        HasRead s.traders before e after left ∧ ((∃ r, .ended (.ok r) ∈ after) → left = []))
      (ledgers : Settled log → ∀ t ∈ s.traders, s.scene.stores.ledger t.ledger = .empty)
  | refreshing {permit : Nat} {fleet : Fleet Load} {refreshed : List Nat}
      {before after : List Occurrence} {e : BlockEvent} {left : List OrderBookAddress}
      (flight : s.InFlight log permit (.refreshing e.height fleet refreshed) before e after)
      (reads : HasRead s.traders before e after left)
      (serves : fleet.Serves (readingPools s.network e.height) left s.scene.stores)
      (ledgers : Settled before → ∀ t ∈ s.traders, s.scene.stores.ledger t.ledger = .empty)
  | trading {permit : Nat} {refreshed : List Nat} {fleet : Fleet Landing}
      {outcomes : List PairOutcome} {before after : List Occurrence} {e : BlockEvent}
      {left done : List Trader}
      (flight : s.InFlight log permit (.trading e.height refreshed fleet outcomes) before e after)
      (reads : HasRead s.traders before e after [])
      (serves : fleet.Serves (tradingPairs s.network e.height (Settled before)) left
        s.scene.stores)
      (cycles : (left ++ done).Perm s.traders)
      (ledgers : ∀ t ∈ done, s.scene.stores.ledger t.ledger = .empty)

/-- A session whose traders have different ledgers, and that stands as its log tells: with the
orders that were read last, and with at most one block in flight. -/
structure Session.Orderly (s : Session σ) (log : List Occurrence) : Prop where
  different : s.traders.Pairwise fun t t' => t.ledger ≠ t'.ledger
  snapshots : ∀ pool, s.scene.stores.pools.get? pool = lastRead log pool
  stands : s.Stands log

/-! ### One move -/

namespace Session

variable {s s' : Session σ} {log more : List Occurrence}

theorem InFlight.keep {permit : Nat} {f f' : Flight} {before after : List Occurrence}
    {e : BlockEvent} (h : s.InFlight log permit f before e after)
    (flights : s'.flights = [(permit, f')]) (held : s'.guard.held = s.guard.held)
    (unended : ∀ r, .ended r ∉ more) (unadmitted : ∀ e, .admitted e ∉ more) :
    s'.InFlight (log ++ more) permit f' before e (after ++ more) where
  one := flights
  held := held.trans h.held
  since := h.since.append unadmitted
  going r among := (List.mem_append.mp among).elim (h.going r) (unended r)

/-- Nothing is different for a session when nobody tells of reading or of blocks, and when no ledger
is different. -/
theorem Stands.keep (h : s.Stands log) (traders : s'.traders = s.traders)
    (network : s'.network = s.network) (flights : s'.flights = s.flights)
    (held : s'.guard.held = s.guard.held)
    (same : ∀ number, s'.scene.stores.ledger number = s.scene.stores.ledger number)
    (unread : readings more = []) (unended : ∀ r, .ended r ∉ more)
    (unadmitted : ∀ e, .admitted e ∉ more) : s'.Stands (log ++ more) := by
  cases h with
  | idle nobody free reads ledgers =>
    refine .idle (flights.trans nobody) (held.trans free) ?_ ?_
    · intro before e after since
      obtain ⟨after, rfl, earlier⟩ := since.of_append unadmitted
      obtain ⟨left, read, ended⟩ := reads before e after earlier
      refine ⟨left, by rw [traders]; exact read.append unread, ?_⟩
      rintro ⟨r, among⟩
      exact ended ⟨r, (List.mem_append.mp among).resolve_right (unended _)⟩
    · intro settled t among
      rw [Settled, lastEnd_append_of_silent unended] at settled
      rw [same]
      exact ledgers settled t (traders ▸ among)
  | refreshing flight reads serves ledgers =>
    refine .refreshing (flight.keep (flights.trans flight.one) held unended unadmitted)
      (by rw [traders]; exact reads.append unread)
      (by rw [network]; exact serves_reading_lasts serves) ?_
    rw [traders]
    exact fun settled t among => (same _).trans (ledgers settled t among)
  | trading flight reads serves cycles ledgers =>
    exact .trading (flight.keep (flights.trans flight.one) held unended unadmitted)
      (by rw [traders]; exact reads.append unread)
      (by rw [network]; exact serves_trading_lasts serves same) (by rw [traders]; exact cycles)
      fun t among => (same _).trans (ledgers t among)

theorem Orderly.targets_eq (h : s.Orderly log) (e : BlockEvent) :
    s.targets e = toRead s.traders log e := by
  have same : (fun a : OrderBookAddress => decide (a.pool ∈ e.pools) ||
      !s.scene.stores.pools.contains a.pool) = fun a => decide (a.pool ∈ e.pools) ||
      (lastRead log a.pool).isNone := by
    funext a
    rw [Table.contains, h.snapshots]
    cases lastRead log a.pool <;> rfl
  rw [targets, toRead]
  exact congrArg (fun f => distinctPools (List.filter f _)) same

theorem Orderly.arrive (h : s.Orderly log) (e : BlockEvent) :
    (s.happen (.arrive e)).1.Orderly (log ++ (s.happen (.arrive e)).2) := by
  cases held : s.guard.held with
  | some permit =>
    rw [happen, arrive_of_held e held]
    exact ⟨h.different, fun pool => (h.snapshots pool).trans
      (lastRead_of_readings_eq_nil rfl pool).symm,
      h.stands.keep rfl rfl rfl held.symm (fun _ => rfl) rfl (by simp) (by simp)⟩
  | none =>
    cases h.stands with
    | refreshing flight => exact absurd (held.symm.trans flight.held) (by simp)
    | trading flight => exact absurd (held.symm.trans flight.held) (by simp)
    | idle nobody free reads ledgers =>
      have reads : HasRead s.traders log e [] (s.targets e) :=
        ⟨[], rfl, by simp, by rw [h.targets_eq, List.map_nil, List.append_nil]⟩
      rw [happen_arrive_of_idle e nobody held]
      refine ⟨h.different, fun pool => (h.snapshots pool).trans
        (lastRead_of_readings_eq_nil rfl pool).symm, ?_⟩
      exact .refreshing
        ⟨rfl, rfl, since_admitted.mpr ⟨rfl, rfl, rfl⟩, fun r => List.not_mem_nil⟩ reads
        (serves_reading_launch (s.targets e) s.scene.stores) ledgers

/-- After its end a block leaves the session idle. -/
theorem InFlight.lands {permit : Nat} {f : Flight} {before after : List Occurrence}
    {e : BlockEvent} (h : s.InFlight log permit f before e after) {scene : Scene σ}
    (taken : List Load) {r : Except Abort Report} {left : List OrderBookAddress}
    (reads : HasRead s.traders before e (after ++ taken.map .read) left)
    (complete : (∃ report, r = .ok report) → left = [] ∧
      ∀ t ∈ s.traders, scene.stores.ledger t.ledger = .empty) :
    ({ s with scene := scene, flights := [], guard := ⟨none, s.guard.asked⟩ } : Session σ).Stands
      (log ++ (taken.map .read ++ [.ended r])) := by
  refine .idle rfl rfl ?_ ?_
  · intro before' e' after' since
    obtain ⟨rfl, rfl, rfl⟩ := (h.since.append (by simp)).unique since
    refine ⟨left, by rw [← List.append_assoc]; exact reads.append rfl, ?_⟩
    rintro ⟨report, among⟩
    refine (complete ⟨report, ?_⟩).1
    simpa [h.going, eq_comm] using among
  · intro settled
    rw [← List.append_assoc, Settled, lastEnd_concat] at settled
    refine (complete ?_).2
    cases r with
    | error a => exact absurd rfl (settled a)
    | ok report => exact ⟨report, rfl⟩

@[simp] theorem stores_drop {α : Type} (scene : Scene σ) (post : Post) (f : Fleet α) :
    (scene.drop post f).stores = scene.stores := by
  cases post <;> rfl

section Reading

variable {permit : Nat} {fleet : Fleet Load} {refreshed : List Nat}
  {before after : List Occurrence} {e : BlockEvent} {left : List OrderBookAddress}
  (h : s.Orderly log) (post : Post)
  (flight : s.InFlight log permit (.refreshing e.height fleet refreshed) before e after)
  (reads : HasRead s.traders before e after left)
  (serves : fleet.Serves (readingPools s.network e.height) left s.scene.stores)
  (ledgers : Settled before → ∀ t ∈ s.traders, s.scene.stores.ledger t.ledger = .empty)

include h flight reads serves ledgers

/-- A block that reads pools answers some of its requests and waits again. -/
theorem Orderly.reading_proceeds {scene : Scene σ} {fleet' : Fleet Load}
    (proceeds : fleet.proceed? s.network post s.scene = some (scene, fleet')) :
    (s.happen (.resume post permit)).1.Orderly (log ++ (s.happen (.resume post permit)).2) := by
  rw [happen_resume flight.one flight.held, Flight.step, takenIn_of_proceed proceeds, proceeds]
  obtain ⟨serves, changes⟩ := serves.proceed (readingPools_apart _) proceeds
  have same := eq_of_reading changes
  refine ⟨h.different, fun pool => ?_, .refreshing (flight.keep rfl rfl (by simp) (by simp))
    (reads.append rfl) serves ?_⟩
  · rw [lastRead_of_readings_eq_nil rfl, same]
    exact h.snapshots pool
  · rw [same]
    exact ledgers

/-- A block that reads pools takes in those it has read. One it could not read ends it; with none
left to read, its pairs take off; otherwise it reads on. -/
theorem Orderly.reading_collects (proceeds : fleet.proceed? s.network post s.scene = none) :
    (s.happen (.resume post permit)).1.Orderly (log ++ (s.happen (.resume post permit)).2) := by
  rw [happen_resume flight.one flight.held, Flight.step, takenIn_of_collect proceeds, proceeds]
  obtain ⟨still, ended, serving, results, ensured, perm, done⟩ := serves.collect
  obtain ⟨left', reads, complete⟩ := reads.take perm ensured
    (List.takeWhile_prefix fun l : Load => !l.unwinds)
  rw [results] at reads complete
  have snapshots := fun pool => Stores.get?_settle s.scene.stores refreshed fleet.finished pool
  have same := fun number =>
    Stores.ledger_settle s.scene.stores refreshed fleet.finished number
  have unadmitted (loads : List Load) (e : BlockEvent) :
      .admitted e ∉ loads.map Occurrence.read := by simp
  have unended (loads : List Load) (r : Except Abort Report) :
      .ended r ∉ loads.map Occurrence.read := by simp
  simp only [h.snapshots, ← lastRead_append] at snapshots
  dsimp only [Flight.collectLoads]
  rcases settled : s.scene.stores.settle refreshed fleet.finished with ⟨stores, a | all⟩ <;>
    rw [settled] at snapshots same
  -- A load unwound: what was taken in before it stays, and the block is over.
  · refine ⟨h.different, fun pool => ?_, flight.lands _ reads (by rintro ⟨_, ⟨⟩⟩)⟩
    rw [← List.append_assoc, lastRead_of_readings_eq_nil rfl]
    simpa using snapshots pool
  · have whole := Stores.takeWhile_of_settle settled
    obtain rfl := complete whole
    split_ifs with finished
    -- All pools are read: every pair is launched, with the ledger the block before left it.
    · obtain rfl := done finished
      have begun : s.traders ++ [] = s.traders := List.append_nil _
      refine ⟨h.different, snapshots, .trading (flight.keep rfl rfl (unended _) (unadmitted _))
        reads ?_ (.of_eq begun) (by simp)⟩
      exact Fleet.serves_launch fun t among => ⟨fun _ _ _ => t.keeps_takeOff _ _,
        .inr ⟨rfl, fun clean => (same _).trans (ledgers clean t among)⟩⟩
    · exact ⟨h.different, snapshots, .refreshing (flight.keep rfl rfl (unended _) (unadmitted _))
        reads (serves_reading_lasts serving) fun clean t among =>
          (same _).trans (ledgers clean t among)⟩

theorem Orderly.resume_refreshing :
    (s.happen (.resume post permit)).1.Orderly (log ++ (s.happen (.resume post permit)).2) := by
  cases proceeds : fleet.proceed? s.network post s.scene with
  | none => exact h.reading_collects post flight reads serves ledgers proceeds
  | some next => exact h.reading_proceeds post flight reads serves ledgers proceeds

end Reading

section Trading

variable {permit : Nat} {fleet : Fleet Landing} {refreshed : List Nat}
  {outcomes : List PairOutcome} {before after : List Occurrence} {e : BlockEvent}
  {left done : List Trader} (h : s.Orderly log) (post : Post)
  (flight : s.InFlight log permit (.trading e.height refreshed fleet outcomes) before e after)
  (reads : HasRead s.traders before e after [])
  (serves : fleet.Serves (tradingPairs s.network e.height (Settled before)) left s.scene.stores)
  (cycles : (left ++ done).Perm s.traders)
  (ledgers : ∀ t ∈ done, s.scene.stores.ledger t.ledger = .empty)

include h flight reads serves cycles ledgers

/-- A block whose pairs trade answers some of their requests and waits again. The pairs that are
done keep their empty ledgers, since no two pairs share one. -/
theorem Orderly.trading_proceeds {scene : Scene σ} {fleet' : Fleet Landing}
    (proceeds : fleet.proceed? s.network post s.scene = some (scene, fleet')) :
    (s.happen (.resume post permit)).1.Orderly (log ++ (s.happen (.resume post permit)).2) := by
  have different : (left ++ done).Pairwise fun t t' => t.ledger ≠ t'.ledger :=
    (cycles.pairwise_iff Ne.symm).mpr h.different
  obtain ⟨apart, -, others⟩ := List.pairwise_append.mp different
  rw [happen_resume flight.one flight.held, Flight.step, proceeds]
  obtain ⟨serves, changes⟩ := serves.proceed (tradingPairs_apart apart) proceeds
  obtain ⟨pools, same⟩ := confined_of_trading changes
  refine ⟨h.different, fun pool => ?_,
    .trading (flight.keep rfl rfl (by simp [Flight.takenIn]) (by simp [Flight.takenIn]))
      (reads.append rfl) serves cycles fun t among => ?_⟩
  · dsimp only
    rw [pools]
    exact (h.snapshots pool).trans (lastRead_of_readings_eq_nil rfl pool).symm
  · exact (same _ fun t' working => Ne.symm (others t' working t among)).trans (ledgers t among)

/-- A block whose pairs trade collects the cycles that have ended. One that unwound ends the block,
and so does the last. -/
theorem Orderly.trading_collects (proceeds : fleet.proceed? s.network post s.scene = none) :
    (s.happen (.resume post permit)).1.Orderly (log ++ (s.happen (.resume post permit)).2) := by
  have snapshots (pool : Nat) (more : List Occurrence) (unread : readings more = []) :
      s.scene.stores.pools.get? pool = lastRead (log ++ more) pool :=
    (h.snapshots pool).trans (lastRead_of_readings_eq_nil unread pool).symm
  rw [happen_resume flight.one flight.held, Flight.step, proceeds]
  obtain ⟨still, ended, serving, results, ensured, perm, finished⟩ := serves.collect
  dsimp only [Flight.collectOutcomes]
  rcases collected : outcomesOf fleet.finished with a | more
  · refine ⟨h.different, fun pool => ?_,
      flight.lands [] (reads.append rfl) (by rintro ⟨_, ⟨⟩⟩)⟩
    dsimp only
    rw [stores_drop]
    exact snapshots pool _ rfl
  · have empty : ∀ m ∈ ended, s.scene.stores.ledger m.1.ledger = .empty := by
      intro m among
      have landed : m.2 ∈ fleet.finished := results ▸ List.mem_map_of_mem among
      obtain ⟨o, ending⟩ := outcomesOf_eq_ok collected m.2 landed
      exact (ensured m among).2 o ending
    -- The pairs whose cycles have just ended are done, too.
    have cycles : (still ++ (ended.map (·.1) ++ done)).Perm s.traders := by
      rw [← List.append_assoc]
      exact (perm.append_right _).trans cycles
    have ledgers : ∀ t ∈ ended.map (·.1) ++ done, s.scene.stores.ledger t.ledger = .empty := by
      intro t among
      rcases List.mem_append.mp among with now | before
      · obtain ⟨m, landed, rfl⟩ := List.mem_map.mp now
        exact empty m landed
      · exact ledgers t before
    dsimp only
    split_ifs with last
    · obtain rfl := finished last
      exact ⟨h.different, fun pool => snapshots pool _ rfl,
        flight.lands [] (reads.append rfl) fun _ => ⟨rfl, fun t among =>
          ledgers t (cycles.mem_iff.mpr among)⟩⟩
    · exact ⟨h.different, fun pool => snapshots pool _ rfl,
        .trading (flight.keep rfl rfl (by simp [Flight.takenIn]) (by simp [Flight.takenIn]))
          (reads.append rfl) serving cycles ledgers⟩

theorem Orderly.resume_trading :
    (s.happen (.resume post permit)).1.Orderly (log ++ (s.happen (.resume post permit)).2) := by
  cases proceeds : fleet.proceed? s.network post s.scene with
  | none => exact h.trading_collects post flight reads serves cycles ledgers proceeds
  | some next => exact h.trading_proceeds post flight reads serves cycles ledgers proceeds

end Trading

/-! ### All moves -/

/-- A session stays orderly whatever happens to it. -/
theorem Orderly.happen (h : s.Orderly log) (m : Move σ) :
    (s.happen m).1.Orderly (log ++ (s.happen m).2) := by
  cases m with
  | arrive e => exact h.arrive e
  | feed shelf =>
    exact ⟨h.different, fun pool => (h.snapshots pool).trans
      (lastRead_of_readings_eq_nil rfl pool).symm,
      h.stands.keep rfl rfl rfl rfl (fun _ => rfl) rfl (by simp [Session.happen])
        (by simp [Session.happen])⟩
  | alter f =>
    exact ⟨h.different, fun pool => (h.snapshots pool).trans
      (lastRead_of_readings_eq_nil rfl pool).symm,
      h.stands.keep rfl rfl rfl rfl (fun _ => rfl) rfl (by simp [Session.happen])
        (by simp [Session.happen])⟩
  | resume post permit =>
    cases found : s.flight? permit with
    | none =>
      rw [happen_resume_of_none found, List.append_nil]
      exact h
    | some f =>
      cases h.stands with
      | idle nobody => simp [flight?, nobody] at found
      | refreshing flight reads serves ledgers =>
        obtain rfl := permit_eq_of_one flight.one found
        exact h.resume_refreshing post flight reads serves ledgers
      | trading flight reads serves cycles ledgers =>
        obtain rfl := permit_eq_of_one flight.one found
        exact h.resume_trading post flight reads serves cycles ledgers

/-- After any history an orderly session stands as its log tells. -/
theorem Orderly.history (h : s.Orderly log) (moves : List (Move σ)) :
    (s.history moves).1.Orderly (log ++ (s.history moves).2) := by
  induction moves using List.reverseRecOn with
  | nil => rwa [history_nil, List.append_nil]
  | append_singleton moves m ih =>
    rw [history_concat, ← List.append_assoc]
    exact ih.happen m

/-! ### Sessions that are listed -/

theorem listings_tradersOf (settings : Settings) (found : List Listing) :
    (tradersOf settings found).map (·.listing) = found := by
  rw [tradersOf, List.map_map]
  exact List.zipIdx_map_fst 0 found

theorem settings_tradersOf {settings : Settings} {listings : List Listing} {t : Trader}
    (among : t ∈ tradersOf settings listings) : t.settings = settings := by
  obtain ⟨l, -, rfl⟩ := List.mem_map.mp among
  rfl

/-- Each listed trader has a ledger of its own. -/
theorem different_tradersOf (settings : Settings) (listings : List Listing) :
    (tradersOf settings listings).Pairwise fun t t' => t.ledger ≠ t'.ledger := by
  have numbers : (tradersOf settings listings).map (·.ledger) =
      List.range' 0 listings.length := by
    rw [tradersOf, List.map_map]
    exact List.zipIdx_map_snd 0 listings
  exact List.pairwise_map.mp (numbers ▸ List.nodup_range')

/-- How a session is listed: its pairs are those of its settings, and one after the other they are
found. -/
theorem list_eq_ok_iff {settings : Settings} : s.list settings = (s', .ok ()) ↔ ∃ found listings scene,
    settings.pairs = .ok found ∧
    findAll { s.network with limitSecs := settings.trade.callTimeoutSecs } found s.scene =
      (.ok listings, scene) ∧
    s' = { network := { s.network with limitSecs := settings.trade.callTimeoutSecs }
           traders := tradersOf settings listings
           guard := .free
           flights := []
           scene := { scene with stores := .ofShelf scene.stores.shelf } } := by
  rw [list]
  dsimp only
  cases known : settings.pairs with
  | error e =>
    rw [Session.listings, known]
    constructor
    · intro h
      cases (Prod.mk.inj h).2
    · rintro ⟨found, listings, scene, ⟨⟩, -⟩
  | ok found =>
    rw [Session.listings, known]
    dsimp only
    have run : ∀ x : Listing.Inquiry σ (List Listing), x.run.run s.scene = x s.scene := fun _ => rfl
    rw [run]
    rcases all : findAll { s.network with limitSecs := settings.trade.callTimeoutSecs } found
      s.scene with ⟨e | listings, scene⟩
    · constructor
      · intro h
        cases (Prod.mk.inj h).2
      · rintro ⟨_, _, _, ⟨⟩, h, -⟩
        cases (Prod.mk.inj (all.symm.trans h)).1
    · constructor
      · intro h
        exact ⟨found, listings, scene, rfl, all, (Prod.mk.inj h).1.symm⟩
      · rintro ⟨_, _, _, ⟨⟩, h, rfl⟩
        obtain ⟨⟨⟩, rfl⟩ := Prod.mk.inj (all.symm.trans h)
        rfl

/-- A session is orderly when its pairs have just been listed. -/
theorem orderly_list {settings : Settings} (h : s.list settings = (s', .ok ())) :
    s'.Orderly [] := by
  obtain ⟨_, listings, scene, -, -, rfl⟩ := list_eq_ok_iff.mp h
  refine ⟨different_tradersOf _ _, fun _ => rfl, .idle rfl rfl ?_ fun _ _ _ => rfl⟩
  intro before e after since
  simpa using since.log_eq

/-! ### All that is done with sessions

Blocks that are processed in the foreground, blocks that overlap, and blocks that all arrive before
the first of them goes on have histories of moves. -/

theorem Orderly.becomes (h : s.Orderly log) (b : s.Becomes s') : ∃ log', s'.Orderly log' := by
  obtain ⟨moves, rfl⟩ := b
  exact ⟨_, h.history moves⟩

theorem Orderly.becomes_resumeUntil (h : s.Orderly log) (post : Post) (stop : Flight → Bool)
    (permit : Nat) : s.Becomes (s.resumeUntil post stop permit).1 := by
  cases h.stands with
  | idle nobody =>
    rw [resumeUntil, show s.flight? permit = none by simp [flight?, nobody]]
    exact .refl s
  | refreshing flight => exact Session.becomes_resumeUntil flight.one flight.held permit
  | trading flight => exact Session.becomes_resumeUntil flight.one flight.held permit

theorem Orderly.becomes_process (h : s.Orderly log) (e : BlockEvent) :
    s.Becomes (s.process e).1 := by
  have arrives := s.becomes_arrive e
  rw [process]
  rcases arrived : s.arrive e with ⟨s', _ | permit⟩ <;> rw [arrived] at arrives
  · exact arrives
  · obtain ⟨log', orderly⟩ := h.becomes arrives
    exact arrives.trans (orderly.becomes_resumeUntil .foreground _ permit)

theorem Orderly.becomes_overlap (h : s.Orderly log) (first second : BlockEvent) :
    s.Becomes (s.overlap first second).1 := by
  have arrives := s.becomes_arrive first
  rw [overlap]
  rcases arrived : s.arrive first with ⟨s₁, _ | permit⟩ <;> rw [arrived] at arrives <;>
    obtain ⟨log₁, orderly₁⟩ := h.becomes arrives
  · exact arrives.trans (orderly₁.becomes_process second)
  · have waits := orderly₁.becomes_resumeUntil .background Flight.isWaiting permit
    obtain ⟨log₂, orderly₂⟩ := orderly₁.becomes waits
    have processes := orderly₂.becomes_process second
    obtain ⟨log₃, orderly₃⟩ := orderly₂.becomes processes
    have before := (arrives.trans waits).trans processes
    dsimp only [resumeNow]
    rcases early : (s₁.resumeUntil .background Flight.isWaiting permit).2 with _ | report
    · exact before.trans (orderly₃.becomes_resumeUntil .background _ permit)
    · exact before

theorem Orderly.becomes_follow (h : s.Orderly log) (events : List BlockEvent) :
    s.Becomes (s.follow events).1 := by
  have arriving (others : List BlockEvent) (s : Session σ) :
      s.Becomes (others.foldl (fun s e => (s.arrive e).1) s) := by
    induction others generalizing s with
    | nil => exact .refl s
    | cons e others ih => exact (s.becomes_arrive e).trans (ih _)
  cases events with
  | nil => exact .refl s
  | cons first others =>
    have arrives := s.becomes_arrive first
    rw [follow]
    rcases arrived : s.arrive first with ⟨s₁, _ | permit⟩ <;> rw [arrived] at arrives
    · exact arrives.trans (arriving others s₁)
    · have all := arrives.trans (arriving others s₁)
      obtain ⟨log', orderly⟩ := h.becomes all
      exact all.trans (orderly.becomes_resumeUntil .background _ permit)

/-! ### A session of one pair -/

/-- Settings of one pair, with everything else left at its default. -/
def onePair : Settings where
  chain := { usdDenom := "uusdc" }
  assets := [⟨"OSMO", "uosmo", some 6, none⟩, ⟨"USDC", "uusdc", some 6, none⟩]
  pairSymbols := [⟨"OSMO", "USDC"⟩]

/-- A session around a network, with some levels of the pair on the venue, before the pair is
listed. -/
def unlisted (network : Network σ) (world : σ) (asks : List Venue.Level) : Session σ :=
  (idle network world).withShelf (.ofList [("OSMOUSDC", ⟨"OSMOUSDC", [], asks⟩)])

end Session

end CrossBook.Engine
