import CrossBook.Proofs.Engine.Outlooks

/-!
# Blocks that go as their parts do

A block whose parts come to something on their own comes to the same: nothing of its report depends
on the order in which its pools and its pairs have their turns.

## Main definitions

* `Engine.Outlook.Suits` — a scene in which the parts of a block are as in an outlook
* `Engine.Outlook.Follows`, `Outlook.Ends` — a block goes, and ends, as an outlook says

## Main results

* `Engine.Outlook.Suits.meets_step` — one step of a block
* `Engine.Outlook.Suits.ends_runUntil` — a block up to its end
* `Engine.Outlook.Suits.pauses_runUntil` — a block up to the first time it has to wait
-/

namespace CrossBook.Engine

open Relation

variable {σ τ : Type} {net : Network σ} {view : σ → τ} {height : Nat}

namespace Outlook

/-! ### Pools and cycles as they are on their own -/

/-- The pools that are read. -/
def pools (o : Outlook net height) (view : σ → τ) : Solos net view OrderBookAddress Load where
  kin _ := loadKin
  value := o.load
  ending := o.loaded

/-- The cycles of traders, each with the trader it is known by. -/
def cycles (o : Outlook net height) (view : σ → τ) : Solos net view (Trader × Trader) Landing where
  kin m := m.1.landingKin m.2
  value m := o.landing m.2
  ending m := o.landed m.2

variable (o : Outlook net height)

theorem pools_apart (targets : List OrderBookAddress) : targets.Pairwise (o.pools view).Apart :=
  List.pairwise_of_forall fun _ _ => ⟨fun _ _ _ _ => id, fun _ _ _ _ => id⟩

theorem cycles_spare {m m' : Trader × Trader} (name : m'.1.name ≠ m.1.name)
    (ledger : m'.1.ledger ≠ m.1.ledger) : (o.cycles view).Spares m m' := by
  rintro s s' s₀ (confined : m.1.Confined s s') (sees : m'.1.SeesAlike m'.2 s s₀)
  exact ⟨confined.shelf_eq.trans sees.shelf, fun pool => confined.pools_eq ▸ sees.pools pool,
    (confined.cooldown_eq _ name).trans sees.cooldown,
    (confined.ledger_eq _ ledger).trans sees.ledger⟩

variable {o} {targets : List OrderBookAddress} {jobs : List (Trader × Trader)}

theorem stores_of_reading {stores stores' : Stores}
    (h : ReflTransGen ((o.pools view).Changes targets) stores stores') : stores' = stores := by
  induction h with
  | refl => rfl
  | tail _ changes ih =>
    obtain ⟨_, -, same⟩ := changes
    exact (show _ = _ from same).symm.trans ih

theorem shared_of_trading {stores stores' : Stores}
    (h : ReflTransGen ((o.cycles view).Changes jobs) stores stores') :
    stores'.shelf = stores.shelf ∧ stores'.pools = stores.pools := by
  induction h with
  | refl => exact ⟨rfl, rfl⟩
  | tail _ changes ih =>
    obtain ⟨m, -, confined⟩ := changes
    have confined : m.1.Confined _ _ := confined
    exact ⟨confined.shelf_eq.trans ih.1, confined.pools_eq.trans ih.2⟩

/-! ### Blocks that follow an outlook -/

/-- In a scene the pools that have to be read and the traders, each with the trader it is known by,
are as in an outlook. -/
structure Suits (o : Outlook net height) (view : σ → τ) (targets : List OrderBookAddress)
    (jobs : List (Trader × Trader)) (s : Scene σ) : Prop where
  relisted : ∀ m ∈ jobs, ∃ number entries, m.1 = m.2.relisted number entries
  names : (jobs.map fun m => m.1.name).Nodup
  ledgers : (jobs.map fun m => m.1.ledger).Nodup
  different : (targets.map (·.pool)).Nodup
  world : view s.world = view o.world
  shelf : s.stores.shelf = o.stores.shelf
  books : (∀ a ∈ targets, (o.load a).unwinds = false) → ∀ pool, o.stores.pools.get? pool =
    (targets.findSome? fun a => (o.load a).book? pool).or (s.stores.pools.get? pool)
  rests : ∀ m ∈ jobs, s.stores.cooldowns.get? m.1.name = o.stores.cooldowns.get? m.2.name
  claims : ∀ m ∈ jobs, s.stores.ledger m.1.ledger = o.stores.ledger m.2.ledger

/-- A block has come to its end as an outlook says. -/
structure Fulfilled (o : Outlook net height) (view : σ → τ) (targets : List OrderBookAddress)
    (jobs : List (Trader × Trader)) (s₀ : Scene σ) (r : Report) (s : Scene σ) : Prop where
  sound : o.Sound targets (jobs.map (·.2))
  told : r.unnumbered = o.report targets (jobs.map (·.2))
  world : view s.world = view o.world
  shelf : s.stores.shelf = o.stores.shelf
  books : ∀ pool, s.stores.pools.get? pool = o.stores.pools.get? pool
  sees : ∀ m ∈ jobs, m.1.SeesAlike m.2 s.stores (o.landed m.2).stores
  lasts : o.Lasts targets (jobs.map (·.2)) → s₀.now < s.now

/-- A block ends as an outlook says: it unwinds when one of its parts does. -/
def Ends (o : Outlook net height) (view : σ → τ) (targets : List OrderBookAddress)
    (jobs : List (Trader × Trader)) (s₀ : Scene σ) : Except Abort Report → Scene σ → Prop
  | .error _, _ => ¬ o.Sound targets (jobs.map (·.2))
  | .ok r, s => o.Fulfilled view targets jobs s₀ r s

/-- In a block that began in some scene the pools are in, as an outlook says, since some time. -/
structure PoolsIn (o : Outlook net height) (view : σ → τ) (targets : List OrderBookAddress)
    (s₀ : Scene σ) (since : Nat) (s : Scene σ) : Prop where
  world : view s.world = view o.world
  shelf : s.stores.shelf = o.stores.shelf
  books : ∀ pool, s.stores.pools.get? pool = o.stores.pools.get? pool
  sound : ∀ a ∈ targets, (o.load a).unwinds = false
  read : ∀ a ∈ targets, (o.loaded a).now + s₀.now ≤ since
  began : s₀.now ≤ since
  now : since ≤ s.now

/-- A block that began in some scene goes as an outlook says. -/
inductive Follows (o : Outlook net height) (view : σ → τ) (targets : List OrderBookAddress)
    (jobs : List (Trader × Trader)) (s₀ : Scene σ) : Flight → Scene σ → Prop
  | reading {fleet : Fleet Load} {refreshed : List Nat} {loads : List Load} {s : Scene σ}
      (plays : fleet.Plays (o.pools view) s₀.now targets loads s)
      (taken : s₀.stores.settle [] loads = (s.stores, .ok refreshed))
      (world : view s.world = view o.world) (since : s₀.now ≤ s.now) :
      Follows o view targets jobs s₀ (.refreshing height fleet refreshed) s
  | trading {fleet : Fleet Landing} {landings : List Landing} {outcomes : List PairOutcome}
      {since : Nat} {s : Scene σ} (plays : fleet.Plays (o.cycles view) since jobs landings s)
      (told : outcomesOf landings = .ok outcomes) (poolsIn : o.PoolsIn view targets s₀ since s) :
      Follows o view targets jobs s₀ (.trading height (o.refreshed targets) fleet outcomes) s

variable {s s₀ : Scene σ}

theorem Suits.apart (h : o.Suits view targets jobs s₀) : jobs.Pairwise (o.cycles view).Apart := by
  have names := List.pairwise_map.mp h.names
  have ledgers := List.pairwise_map.mp h.ledgers
  exact (names.and ledgers).imp fun ⟨name, ledger⟩ =>
    ⟨o.cycles_spare (Ne.symm name) (Ne.symm ledger), o.cycles_spare name ledger⟩

theorem follows_launch (suits : o.Suits view targets jobs s₀) :
    o.Follows view targets jobs s₀ (.launch height targets) s₀ := by
  have nothing : s₀.stores.settle [] [] = (s₀.stores, .ok []) := rfl
  refine .reading ?_ nothing suits.world le_rfl
  exact Fleet.plays_launch _ _ (fun a _ => a.alike_load height) suits.world rfl (fun _ _ => trivial)
    fun a _ => o.loads a

/-- When all pools are in, the stores are as the cycles of the outlook see them. -/
theorem Suits.sees_of_settled (suits : o.Suits view targets jobs s₀) {loads : List Load}
    {all : List Nat} {stores : Stores} (read : loads.Perm (targets.map o.load))
    (taken : s₀.stores.settle [] loads = (stores, .ok all)) :
    (∀ a ∈ targets, (o.load a).unwinds = false) ∧ stores.shelf = o.stores.shelf ∧
      (∀ pool, stores.pools.get? pool = o.stores.pools.get? pool) ∧
      ∀ m ∈ jobs, m.1.SeesAlike m.2 stores o.stores := by
  have loaded : ∀ l ∈ loads, l.unwinds = false := fun l => Stores.not_unwinds_of_settle taken
  have sound : ∀ a ∈ targets, (o.load a).unwinds = false := fun a among =>
    loaded _ (read.symm.subset (List.mem_map_of_mem among))
  have books : ∀ pool, stores.pools.get? pool = o.stores.pools.get? pool := by
    intro pool
    rw [suits.books sound,
      ← s₀.stores.get?_settle_of_perm (fun a _ => o.reads a) suits.different read loaded, taken]
  have shelf := s₀.stores.shelf_settle [] loads
  have rests := s₀.stores.cooldowns_settle [] loads
  have claims := s₀.stores.ledger_settle [] loads
  rw [taken] at shelf rests claims
  exact ⟨sound, shelf.trans suits.shelf, books, fun m job =>
    ⟨shelf.trans suits.shelf, books,
      (congrArg (fun c : Cooldowns => c.get? m.1.name) rests).trans (suits.rests m job),
      (claims _).trans (suits.claims m job)⟩⟩

/-- When all pools are in the cycles begin. -/
theorem Suits.follows_trading (suits : o.Suits view targets jobs s₀) {fleet : Fleet Load}
    {loads : List Load} {all : List Nat} {stores : Stores}
    (plays : fleet.Plays (o.pools view) s₀.now targets loads s) (done : fleet.isDone)
    (taken : s₀.stores.settle [] (loads ++ fleet.finished) = (stores, .ok all))
    (world : view s.world = view o.world) (since : s₀.now ≤ s.now) :
    o.Follows view targets jobs s₀
      (.trading height (all.mergeSort fun a b => a ≤ b)
        (.launch ((jobs.map (·.1)).map fun t => t.takeOff height)) [])
      { s with stores := stores } := by
  obtain ⟨ended, results, order, atEnd⟩ := plays.complete done
  -- the pools were read in the order in which they were done, and all of them were
  have read : (loads ++ fleet.finished).Perm (targets.map o.load) := by
    have same : ended.map (·.2) = (ended.map (·.1)).map o.load := by
      rw [List.map_map]
      exact List.map_congr_left fun m among => (atEnd m among).agrees
    rw [← results, same]
    exact order.map o.load
  have refreshed : all.mergeSort (fun a b => a ≤ b) = o.refreshed targets := by
    rw [Stores.refreshed_of_settle taken, List.nil_append]
    exact sort_eq_of_perm (read.filterMap _)
  obtain ⟨sound, shelf, books, sees⟩ := suits.sees_of_settled read taken
  rw [refreshed, List.map_map]
  have nothing : outcomesOf [] = .ok [] := rfl
  refine .trading ?_ nothing ⟨world, shelf, books, sound, ?_, since, le_rfl⟩
  · refine Fleet.plays_launch { s with stores := stores } (.first o.stores o.world)
      (fun m job => ?_) world rfl sees fun m _ => o.landings m.2
    obtain ⟨number, entries, relisted⟩ := suits.relisted m job
    obtain ⟨t, t₀⟩ := m
    obtain rfl : t = t₀.relisted number entries := relisted
    exact t₀.alike_takeOff number entries height
  · intro a among
    obtain ⟨m, this, rfl⟩ := List.mem_map.mp (order.symm.subset among)
    exact (atEnd m this).ended

/-! ### Reports -/

theorem told_of_outcomesOf {landings : List Landing} {outcomes : List PairOutcome}
    (h : outcomesOf landings = .ok outcomes) :
    outcomes.map PairOutcome.unnumbered = landings.filterMap Landing.told? ∧
      ∀ l ∈ landings, ∃ outcome, l.ending = .ok outcome := by
  induction landings generalizing outcomes with
  | nil =>
    obtain rfl := Except.ok.inj h
    exact ⟨rfl, by simp⟩
  | cons l rest ih =>
    rw [outcomesOf] at h
    cases ending : l.ending with
    | error a => simp [ending] at h
    | ok outcome =>
      simp only [ending] at h
      cases others : outcomesOf rest with
      | error a => simp [others, Except.map] at h
      | ok os =>
        rw [others] at h
        obtain rfl := Except.ok.inj h
        obtain ⟨told, ended⟩ := ih others
        refine ⟨?_, List.forall_mem_cons.mpr ⟨⟨outcome, ending⟩, ended⟩⟩
        rw [List.map_cons, told, List.filterMap_cons_some (by rw [Landing.told?, ending])]

/-- Landings that agree are told alike. -/
theorem told_of_agrees {m : Trader × Trader} {l l₀ : Landing}
    (agrees : (m.1.landingKin m.2).Agrees l l₀) :
    l.told? = l₀.told? ∧
      ((∃ outcome, l.ending = .ok outcome) ↔ ∃ outcome, l₀.ending = .ok outcome) := by
  obtain ⟨pair, endings⟩ : l.pair = l₀.pair ∧
    l.ending.map Outcome.unnumbered = l₀.ending.map Outcome.unnumbered := agrees
  rw [Landing.told?, Landing.told?]
  cases ending : l.ending <;> cases ending₀ : l₀.ending <;> rw [ending, ending₀] at endings
  · exact ⟨rfl, by simp⟩
  · cases endings
  · cases endings
  · refine ⟨congrArg some ?_, by simp⟩
    exact congrArg₂ PairOutcome.mk pair (Except.ok.inj endings)

theorem map_sortOutcomes (outcomes : List PairOutcome) :
    (sortOutcomes outcomes).map PairOutcome.unnumbered =
      sortOutcomes (outcomes.map PairOutcome.unnumbered) := List.map_mergeSort fun _ _ _ _ => rfl

theorem names_relisted
    (relisted : ∀ m ∈ jobs, ∃ number entries, m.1 = m.2.relisted number entries) :
    (jobs.map (·.2)).map Trader.name = jobs.map fun m => m.1.name := by
  rw [List.map_map]
  refine List.map_congr_left fun m job => ?_
  obtain ⟨number, entries, same⟩ := relisted m job
  rw [same]
  rfl

/-- When all cycles have come to their ends the block is over, as the outlook says. -/
theorem Suits.fulfilled (suits : o.Suits view targets jobs s₀) {fleet : Fleet Landing}
    {landings : List Landing} {outcomes : List PairOutcome} {since : Nat}
    (plays : fleet.Plays (o.cycles view) since jobs landings s) (done : fleet.isDone)
    (told : outcomesOf (landings ++ fleet.finished) = .ok outcomes)
    (poolsIn : o.PoolsIn view targets s₀ since s) :
    o.Fulfilled view targets jobs s₀
      (.processed height (o.refreshed targets) (sortOutcomes outcomes)) s := by
  obtain ⟨ended, results, order, atEnd⟩ := plays.complete done
  rw [← results] at told
  obtain ⟨reported, returned⟩ := told_of_outcomesOf told
  have known : ((ended.map (·.1)).map (·.2)).Perm (jobs.map (·.2)) := order.map _
  have landing : ∀ t ∈ jobs.map (·.2), ∃ m ∈ ended, m.1.2 = t := by
    intro t among
    obtain ⟨_, this, rfl⟩ := List.mem_map.mp (known.symm.subset among)
    obtain ⟨m, landed, rfl⟩ := List.mem_map.mp this
    exact ⟨m, landed, rfl⟩
  refine ⟨⟨poolsIn.sound, fun t among => ?_⟩, ?_, poolsIn.world, poolsIn.shelf, poolsIn.books,
    fun m this => ?_, ?_⟩
  · obtain ⟨m, this, rfl⟩ := landing t among
    exact (told_of_agrees (atEnd m this).agrees).2.mp (returned m.2 (List.mem_map_of_mem this))
  · -- outcomes are told in the order in which cycles ended, and sorted by pairs afterwards
    have alike : (ended.map (·.2)).filterMap Landing.told? =
        ((ended.map (·.1)).map (·.2)).filterMap fun t => (o.landing t).told? := by
      rw [List.filterMap_map, List.filterMap_map, List.filterMap_map]
      exact List.filterMap_congr fun m among => (told_of_agrees (atEnd m among).agrees).1
    have names : (((ended.map (·.1)).map (·.2)).map Trader.name).Nodup := by
      rw [(known.map Trader.name).nodup_iff, names_relisted suits.relisted]
      exact suits.names
    rw [Report.unnumbered, report, map_sortOutcomes, reported, alike,
      sortOutcomes_eq_of_perm (known.filterMap _) (nodup_told names)]
  · obtain ⟨m, among, rfl⟩ := List.mem_map.mp (order.symm.subset this)
    exact (atEnd m among).sees
  · have began := poolsIn.began
    have now := poolsIn.now
    rintro (⟨a, among, later⟩ | ⟨t, among, later⟩)
    · have before := poolsIn.read a among
      omega
    · obtain ⟨m, this, rfl⟩ := landing t among
      have before : (o.landed m.1.2).now + since ≤ s.now := (atEnd m this).ended
      omega

/-! ### Whole blocks -/

/-- A block that waits as soon as it has begun waits for a part that takes its time. -/
theorem Follows.lasts {f : Flight} (h : o.Follows view targets jobs s₀ f s) (waits : f.isWaiting)
    (now : s.now = s₀.now) : o.Lasts targets (jobs.map (·.2)) := by
  obtain ⟨time, waking⟩ : ∃ time, f.upcoming = .waking time := by
    cases next : f.upcoming with
    | waking time => exact ⟨time, rfl⟩
    | collecting => simp [Flight.isWaiting, next] at waits
    | running => simp [Flight.isWaiting, next] at waits
  cases h with
  | reading plays taken world since =>
    obtain ⟨a, among, later⟩ := plays.exists_later waking
    rw [now] at later
    exact .inl ⟨a, among, Nat.pos_of_lt_add_left later⟩
  | trading plays told poolsIn =>
    obtain ⟨m, among, later⟩ := plays.exists_later waking
    have began := poolsIn.now
    refine .inr ⟨m.2, List.mem_map_of_mem among, ?_⟩
    have later : _ < (o.landed m.2).now + _ := later
    omega

section Running

variable (impartial : net.Impartial view) (suits : o.Suits view targets jobs s₀) {f : Flight}

include impartial suits

/-- Whatever happens next while pools are read, a block goes on as the outlook says, or ends so. -/
theorem Suits.meets_step_reading (post : Post) {fleet : Fleet Load} {refreshed : List Nat}
    {loads : List Load} (plays : fleet.Plays (o.pools view) s₀.now targets loads s)
    (taken : s₀.stores.settle [] loads = (s.stores, .ok refreshed))
    (world : view s.world = view o.world) (since : s₀.now ≤ s.now) :
    Progress.Meets (o.Follows view targets jobs s₀) (o.Ends view targets jobs s₀)
      ((Flight.refreshing height fleet refreshed).step net (jobs.map (·.1)) post s) := by
  rw [Flight.step]
  cases next : fleet.proceed? net post s with
  | some r =>
    obtain ⟨s', fleet'⟩ := r
    obtain ⟨plays, changes⟩ := plays.proceed impartial (o.pools_apart targets) next
    refine .reading plays ?_ ((impartial.view_proceed? next).trans world)
      (since.trans (Fleet.now_le_of_proceed? next))
    rw [stores_of_reading changes, taken]
  | none =>
    have taken := Stores.settle_append fleet.finished taken
    dsimp only
    rw [Flight.collectLoads]
    rcases settled : s.stores.settle refreshed fleet.finished with ⟨stores, a | all⟩
    · -- one of the pools that were read unwinds
      obtain ⟨l, among, unwinds⟩ := Stores.exists_unwinds_of_settle (taken.trans settled)
      obtain ⟨a, this, ended⟩ := plays.exists_atEnd among
      obtain rfl : l = o.load a := ended.agrees
      exact fun sound => Bool.false_ne_true ((sound.1 a this).symm.trans unwinds)
    · dsimp only
      split_ifs with done
      · exact suits.follows_trading plays done (taken.trans settled) world since
      · refine .reading (s := { s with stores := stores }) ?_ (taken.trans settled) world since
        exact plays.collect.lasts fun _ _ => ⟨rfl, rfl, fun _ _ => trivial⟩

/-- Whatever happens next while cycles run, a block goes on as the outlook says, or ends so. -/
theorem Suits.meets_step_trading (post : Post) {fleet : Fleet Landing} {landings : List Landing}
    {outcomes : List PairOutcome} {began : Nat}
    (plays : fleet.Plays (o.cycles view) began jobs landings s)
    (told : outcomesOf landings = .ok outcomes) (poolsIn : o.PoolsIn view targets s₀ began s) :
    Progress.Meets (o.Follows view targets jobs s₀) (o.Ends view targets jobs s₀)
      ((Flight.trading height (o.refreshed targets) fleet outcomes).step net (jobs.map (·.1)) post
        s) := by
  rw [Flight.step]
  cases next : fleet.proceed? net post s with
  | some r =>
    obtain ⟨s', fleet'⟩ := r
    obtain ⟨plays, changes⟩ := plays.proceed impartial suits.apart next
    obtain ⟨shelf, pools⟩ := shared_of_trading changes
    exact .trading plays told { poolsIn with
      world := (impartial.view_proceed? next).trans poolsIn.world
      shelf := shelf.trans poolsIn.shelf
      books := fun pool => pools ▸ poolsIn.books pool
      now := poolsIn.now.trans (Fleet.now_le_of_proceed? next) }
  | none =>
    dsimp only
    rw [Flight.collectOutcomes]
    cases returned : outcomesOf fleet.finished with
    | error a =>
      -- one of the cycles that have ended unwinds
      obtain ⟨l, among, unwinds⟩ := outcomesOf_eq_error returned
      obtain ⟨m, this, ended⟩ := plays.exists_atEnd (List.mem_append_right _ among)
      intro sound
      obtain ⟨outcome, ending⟩ :=
        (told_of_agrees ended.agrees).2.mpr (sound.2 m.2 (List.mem_map_of_mem this))
      cases unwinds.symm.trans ending
    | ok more =>
      have told := outcomesOf_append told returned
      dsimp only
      split_ifs with done
      · exact suits.fulfilled plays done told poolsIn
      · exact .trading plays.collect told poolsIn

/-- Whatever happens next to a block that goes as an outlook says, it goes on so, or ends so. -/
theorem Suits.meets_step (post : Post) (h : o.Follows view targets jobs s₀ f s) :
    Progress.Meets (o.Follows view targets jobs s₀) (o.Ends view targets jobs s₀)
      (f.step net (jobs.map (·.1)) post s) := by
  cases h with
  | reading plays taken world since =>
    exact suits.meets_step_reading impartial post plays taken world since
  | trading plays told poolsIn => exact suits.meets_step_trading impartial post plays told poolsIn

/-- A block that goes as an outlook says comes to its end so. -/
theorem Suits.ends_runUntil (post : Post) (timely : f.Timely s)
    (h : o.Follows view targets jobs s₀ f s) : ∃ s' r,
      f.runUntil net (jobs.map (·.1)) post (fun _ => false) s = (s', .ended r) ∧
        o.Ends view targets jobs s₀ r s' := by
  have comes := Flight.runUntil_comes (fun _ => false)
    (fun _ _ h _ => suits.meets_step impartial post h) timely h
  rcases run : f.runUntil net (jobs.map (·.1)) post (fun _ => false) s with ⟨s', f' | r⟩ <;>
    rw [run] at comes
  · exact absurd comes.2 Bool.false_ne_true
  · exact ⟨s', r, run, comes⟩

/-- A block that goes as an outlook says comes to its end before the clock moves, or it waits for
one of its parts, which takes its time. -/
theorem Suits.pauses_runUntil (post : Post) (timely : f.Timely s)
    (h : o.Follows view targets jobs s₀ f s) (now : s.now = s₀.now) :
    Progress.Meets
      (fun f s => o.Follows view targets jobs s₀ f s ∧ f.Timely s ∧
        o.Lasts targets (jobs.map (·.2)))
      (fun r s => o.Ends view targets jobs s₀ r s ∧ s.now = s₀.now)
      (f.runUntil net (jobs.map (·.1)) post Flight.isWaiting s) := by
  have steady : ∀ f s, (o.Follows view targets jobs s₀ f s ∧ f.Timely s ∧ s.now = s₀.now) →
      f.isWaiting = false → Progress.Meets
        (fun f s => o.Follows view targets jobs s₀ f s ∧ f.Timely s ∧ s.now = s₀.now)
        (fun r s => o.Ends view targets jobs s₀ r s ∧ s.now = s₀.now)
        (f.step net (jobs.map (·.1)) post s) := by
    rintro f s ⟨follows, timely, now⟩ going
    have meets := suits.meets_step impartial post follows
    have same :=
      Flight.now_step net (jobs.map (·.1)) post (s := s) going
    rcases next : f.step net (jobs.map (·.1)) post s with ⟨s', f' | r⟩ <;> rw [next] at meets same ⊢
    · exact ⟨meets, (Flight.step_wears timely next).1, same.trans now⟩
    · exact ⟨meets, same.trans now⟩
  exact (Flight.runUntil_comes _ steady timely ⟨h, timely, now⟩).imp
    fun f s ⟨⟨follows, timely, now⟩, waits⟩ => ⟨follows, timely, follows.lasts waits now⟩

end Running

end Outlook

end CrossBook.Engine
