import CrossBook.Proofs.Engine.Fulfilments
import CrossBook.Proofs.Engine.Snapshots

/-!
# Sessions that mirror each other

Two sessions mirror each other when they trade the same pairs, in whatever order, and differ by what
was sent to the world at most. Whatever is done with both of them, they tell the same of it and
mirror each other afterwards, as long as no block unwinds.

## Main definitions

* `Engine.Act`, `Engine.Session.performAll` — what is done with a session, and what it tells
* `Engine.Session.Mirrors` — a session mirrors another one

## Main results

* `Engine.Session.Mirrors.perform` — sessions that mirror each other tell the same
-/

namespace CrossBook.Engine

variable {σ τ : Type}

/-! ### What is done with a session -/

/-- What is done with a session while no block is in flight: the venue's books change, the world
does, a block is processed, another one arrives while it waits, or several arrive at once. -/
inductive Act (σ : Type) where
  | feed (shelf : Venue.Shelf)
  | alter (f : σ → σ)
  | block (e : BlockEvent)
  | overlap (first second : BlockEvent)
  | follow (events : List BlockEvent)

/-- A change of the world makes nothing of what is not in view. -/
def Act.Blind (view : σ → τ) : Act σ → Prop
  | .alter f => ∀ w w', view w = view w' → view (f w) = view (f w')
  | .feed _ | .block _ | .overlap _ _ | .follow _ => True

deriving instance DecidableEq for Session.Overlap

/-- What a session tells when something was done with it. -/
inductive Account where
  | nothing
  | block (r : Option (Except Abort Report))
  | overlap (o : Session.Overlap)
deriving DecidableEq

namespace Account

/-- The reports of an account. -/
def reports : Account → List (Option (Except Abort Report))
  | .nothing => []
  | .block r => [r]
  | .overlap o => [o.first, o.second]

/-- A block does not unwind. -/
def returned : Option (Except Abort Report) → Bool
  | some (.error _) => false
  | some (.ok _) | none => true

/-- No block unwinds. -/
def Returns (a : Account) : Prop := ∀ r ∈ a.reports, returned r

instance (a : Account) : Decidable a.Returns :=
  inferInstanceAs (Decidable (∀ r ∈ a.reports, returned r))

/-- An account without the numbers of references. -/
def unnumbered : Account → Account
  | .nothing => .nothing
  | .block r => .block (r.map (·.map Report.unnumbered))
  | .overlap o => .overlap ⟨o.busyBetween, o.first.map (·.map Report.unnumbered),
      o.second.map (·.map Report.unnumbered)⟩

end Account

namespace Session

/-- The session after something was done with it, and what it tells. -/
def perform (s : Session σ) : Act σ → Session σ × Account
  | .feed shelf => (s.withShelf shelf, .nothing)
  | .alter f => (s.modifyWorld f, .nothing)
  | .block e => ((s.process e).1, .block (s.process e).2)
  | .overlap first second => ((s.overlap first second).1, .overlap (s.overlap first second).2)
  | .follow events => ((s.follow events).1, .block (s.follow events).2)

/-- The session after all that was done with it, and what it tells of each. -/
def performAll (s : Session σ) : List (Act σ) → Session σ × List Account
  | [] => (s, [])
  | a :: acts =>
    (((s.perform a).1.performAll acts).1,
      (s.perform a).2 :: ((s.perform a).1.performAll acts).2)

/-! ### Pools to read -/

variable {addresses addresses' : List OrderBookAddress}

/-- Where pools have one address, all addresses are left of them. -/
theorem mem_distinctPools_iff
    (single : ∀ a ∈ addresses, ∀ b ∈ addresses, a.pool = b.pool → a = b) {a : OrderBookAddress} :
    a ∈ distinctPools addresses ↔ a ∈ addresses := by
  refine ⟨mem_of_mem_distinctPools, fun among => ?_⟩
  obtain ⟨b, left, same⟩ := exists_mem_distinctPools among
  exact single b (mem_of_mem_distinctPools left) a among same ▸ left

theorem perm_distinctPools
    (single : ∀ a ∈ addresses, ∀ b ∈ addresses, a.pool = b.pool → a = b)
    (h : addresses'.Perm addresses) :
    (distinctPools addresses').Perm (distinctPools addresses) := by
  refine (List.perm_ext_iff_of_nodup (nodup_distinctPools _).of_map
    (nodup_distinctPools _).of_map).mpr fun a => ?_
  rw [mem_distinctPools_iff single, mem_distinctPools_iff fun a among b among' =>
    single a (h.subset among) b (h.subset among'), h.mem_iff]

/-! ### A block in one session -/

variable {view : σ → τ} {height : Nat} {net : Network σ} {o : Outlook net height}
  {targets : List OrderBookAddress} {jobs : List (Trader × Trader)} {scene : Scene σ}
  {permit : Nat} {s : Session σ} {e : BlockEvent}

/-- The session is about to process a block that suits an outlook. -/
structure Expects (o : Outlook net height) (view : σ → τ) (targets : List OrderBookAddress)
    (jobs : List (Trader × Trader)) (s : Session σ) : Prop where
  idle : s.Idle
  network : s.network = net
  traders : s.traders = jobs.map (·.1)
  suits : o.Suits view targets jobs s.scene

/-- A block that began in some scene is in flight, and goes as an outlook says. -/
structure Flies (o : Outlook net height) (view : σ → τ) (targets : List OrderBookAddress)
    (jobs : List (Trader × Trader)) (scene : Scene σ) (permit : Nat) (s : Session σ) : Prop where
  network : s.network = net
  traders : s.traders = jobs.map (·.1)
  held : s.guard.held = some permit
  one : ∃ f, s.flights = [(permit, f)] ∧ f.Timely s.scene ∧
    o.Follows view targets jobs scene f s.scene

/-- A block that began in some scene is over, as an outlook says. -/
structure Lands (o : Outlook net height) (view : σ → τ) (targets : List OrderBookAddress)
    (jobs : List (Trader × Trader)) (scene : Scene σ) (r : Except Abort Report) (s : Session σ) :
    Prop where
  idle : s.Idle
  network : s.network = net
  traders : s.traders = jobs.map (·.1)
  ends : o.Ends view targets jobs scene r s.scene

section One

variable {post : Post} {stop : Flight → Bool} {f f' : Flight} (one : s.flights = [(permit, f)])
  (held : s.guard.held = some permit)

include one

/-- The only block in flight goes on. -/
theorem resumeUntil_going
    (run : f.runUntil s.network s.traders post stop s.scene = (scene, .going f')) :
    s.resumeUntil post stop permit =
      ({ s with scene := scene, flights := [(permit, f')] }, none) := by
  simp [resumeUntil, flight?, otherFlights, settle, one, run]

include held

/-- The only block in flight comes to its end. -/
theorem resumeUntil_ended {r : Except Abort Report}
    (run : f.runUntil s.network s.traders post stop s.scene = (scene, .ended r)) :
    s.resumeUntil post stop permit =
      ({ s with scene := scene, flights := [], guard := ⟨none, s.guard.asked⟩ }, some r) := by
  simp [resumeUntil, flight?, otherFlights, settle, one, run, Guard.release, held]

end One

/-- The block arrives, and goes as the outlook says. -/
theorem Expects.arrive (h : s.Expects o view (s.targets e) jobs) (same : e.height = height) :
    ∃ s' permit, s.arrive e = (s', some permit) ∧ s'.scene = s.scene ∧
      s'.Flies o view (s.targets e) jobs s.scene permit := by
  subst same
  refine ⟨_, _, arrive_of_free e h.idle.free, rfl, h.network, h.traders, rfl, _, ?_,
    Flight.timely_launch _ _ _, Outlook.follows_launch h.suits⟩
  rw [h.idle.nobody]
  rfl

/-- Other blocks that arrive are turned away. -/
theorem Flies.arrive (h : s.Flies o view targets jobs scene permit) (e : BlockEvent) :
    ∃ s', s.arrive e = (s', none) ∧ s'.scene = s.scene ∧
      s'.Flies o view targets jobs scene permit :=
  ⟨_, arrive_of_held e h.held, rfl, h.network, h.traders, rfl, h.one⟩

theorem Flies.arriveAll (h : s.Flies o view targets jobs scene permit) (events : List BlockEvent) :
    (events.foldl (fun s e => (s.arrive e).1) s).Flies o view targets jobs scene permit := by
  induction events generalizing s with
  | nil => exact h
  | cons e events ih =>
    obtain ⟨s', arrives, -, flies⟩ := h.arrive e
    rw [List.foldl_cons, arrives]
    exact ih flies

section Going

variable (impartial : net.Impartial view) (suits : o.Suits view targets jobs scene)

include impartial suits

/-- The block comes to its end. -/
theorem Flies.resume (h : s.Flies o view targets jobs scene permit) (post : Post) :
    ∃ s' r, s.resume post permit = (s', some r) ∧ s'.Lands o view targets jobs scene r := by
  obtain ⟨f, one, timely, follows⟩ := h.one
  obtain ⟨scene', r, run, ends⟩ := suits.ends_runUntil impartial post timely follows
  rw [← h.traders] at run
  obtain rfl := h.network
  exact ⟨{ s with scene := scene', flights := [], guard := ⟨none, s.guard.asked⟩ }, r,
    resumeUntil_ended one h.held run, ⟨rfl, rfl⟩, rfl, h.traders, ends⟩

/-- Before the clock moves the block comes to its end, or it waits for one of its parts. -/
theorem Flies.resumeNow (h : s.Flies o view targets jobs scene permit)
    (now : s.scene.now = scene.now) :
    (∃ s', s.resumeNow .background permit = (s', none) ∧
      s'.Flies o view targets jobs scene permit ∧ o.Lasts targets (jobs.map (·.2))) ∨
    ∃ s' r, s.resumeNow .background permit = (s', some r) ∧
      s'.Lands o view targets jobs scene r ∧ s'.scene.now = scene.now := by
  obtain ⟨f, one, timely, follows⟩ := h.one
  have run := suits.pauses_runUntil impartial .background timely follows now
  rw [← h.traders] at run
  obtain rfl := h.network
  rcases next : f.runUntil s.network s.traders .background Flight.isWaiting s.scene with
    ⟨scene', f' | r⟩ <;> rw [next] at run
  · obtain ⟨follows, timely, lasts⟩ := run
    exact .inl ⟨{ s with scene := scene', flights := [(permit, f')] }, resumeUntil_going one next,
      ⟨rfl, h.traders, h.held, f', rfl, timely, follows⟩, lasts⟩
  · obtain ⟨ends, still⟩ := run
    exact .inr ⟨{ s with scene := scene', flights := [], guard := ⟨none, s.guard.asked⟩ }, r,
      resumeUntil_ended one h.held next, ⟨⟨rfl, rfl⟩, rfl, h.traders, ends⟩, still⟩

end Going

section Expecting

variable (impartial : net.Impartial view) (h : s.Expects o view (s.targets e) jobs)
  (same : e.height = height)

include impartial h same

/-- A block that is processed comes to its end. -/
theorem Expects.process :
    ∃ s' r, s.process e = (s', some r) ∧ s'.Lands o view (s.targets e) jobs s.scene r := by
  obtain ⟨s₁, permit, arrives, -, flies⟩ := h.arrive same
  obtain ⟨s', r, ends, lands⟩ := flies.resume impartial h.suits .foreground
  exact ⟨s', r, by rw [Session.process, arrives]; exact ends, lands⟩

/-- So does one that waits while another one arrives. -/
theorem Expects.overlap (second : BlockEvent) :
    (o.Lasts (s.targets e) (jobs.map (·.2)) ∧
      ∃ s' r, s.overlap e second = (s', ⟨true, some r, some (.ok (.busy second.height))⟩) ∧
        s'.Lands o view (s.targets e) jobs s.scene r) ∨
    ∃ (s' : Session σ) (r : Except Abort Report),
      s.overlap e second = ((s'.process second).1, ⟨false, some r, (s'.process second).2⟩) ∧
      s'.Lands o view (s.targets e) jobs s.scene r ∧ s'.scene.now = s.scene.now := by
  obtain ⟨s₁, permit, arrives, begun, flies⟩ := h.arrive same
  rw [Session.overlap, arrives]
  rcases flies.resumeNow impartial h.suits (congrArg Scene.now begun) with
    ⟨s₂, waits, flies, lasts⟩ | ⟨s', r, ends, lands, now⟩
  · obtain ⟨s₃, turned, -, flies'⟩ := flies.arrive second
    obtain ⟨s', r, ends, lands⟩ := flies'.resume impartial h.suits .background
    refine .inl ⟨lasts, s', r, ?_, lands⟩
    have busy : s₂.guard.isBusy = true := by rw [Guard.isBusy, flies.held]; rfl
    simp only [waits, Session.process, turned, ends, busy]
  · refine .inr ⟨s', r, ?_, lands, now⟩
    have free : s'.guard.isBusy = false := by rw [Guard.isBusy, lands.idle.free]; rfl
    simp only [ends, free]

/-- So does the first of several that arrive at once. -/
theorem Expects.follow (others : List BlockEvent) : ∃ s' r,
    s.follow (e :: others) = (s', some r) ∧ s'.Lands o view (s.targets e) jobs s.scene r := by
  obtain ⟨s₁, permit, arrives, -, flies⟩ := h.arrive same
  obtain ⟨s', r, ends, lands⟩ :=
    (flies.arriveAll others).resume impartial h.suits .background
  exact ⟨s', r, by rw [Session.follow, arrives]; exact ends, lands⟩

end Expecting

/-! ### Two sessions -/

/-- A session mirrors another one: the pairs they trade are the same, in whatever order, and so is
all that they have to see alike. -/
structure Mirrors (view : σ → τ) (jobs : List (Trader × Trader)) (s s₀ : Session σ) : Prop where
  impartial : s₀.network.Impartial view
  idle : s.Idle
  idle₀ : s₀.Idle
  network : s.network = s₀.network
  traders : s.traders = jobs.map (·.1)
  known : (jobs.map (·.2)).Perm s₀.traders
  relisted : ∀ m ∈ jobs, ∃ number entries, m.1 = m.2.relisted number entries
  ledgers : (jobs.map fun m => m.1.ledger).Nodup
  ledgers₀ : (s₀.traders.map fun t => t.ledger).Nodup
  names : (s₀.traders.map Trader.name).Nodup
  single : ∀ t ∈ s₀.traders, ∀ t' ∈ s₀.traders,
    t.listing.address.pool = t'.listing.address.pool → t.listing.address = t'.listing.address
  world : view s.scene.world = view s₀.scene.world
  shelf : s.scene.stores.shelf = s₀.scene.stores.shelf
  books : ∀ pool, s.scene.stores.pools.get? pool = s₀.scene.stores.pools.get? pool
  rests : ∀ m ∈ jobs,
    s.scene.stores.cooldowns.get? m.1.name = s₀.scene.stores.cooldowns.get? m.2.name
  claims : ∀ m ∈ jobs, s.scene.stores.ledger m.1.ledger = s₀.scene.stores.ledger m.2.ledger

namespace Mirrors

variable {s₀ s' s₀' : Session σ} {r r₀ : Except Abort Report}

theorem map_fst_twice (traders : List Trader) :
    (traders.map fun t => (t, t)).map (·.1) = traders := by
  rw [List.map_map]
  exact List.map_id _

theorem map_snd_twice (traders : List Trader) :
    (traders.map fun t => (t, t)).map (·.2) = traders := by
  rw [List.map_map]
  exact List.map_id _

/-- A session that mirrors another one has itself a mirror in that one. -/
theorem self (h : s.Mirrors view jobs s₀) :
    s₀.Mirrors view (s₀.traders.map fun t => (t, t)) s₀ where
  impartial := h.impartial
  idle := h.idle₀
  idle₀ := h.idle₀
  network := rfl
  traders := (map_fst_twice s₀.traders).symm
  known := .of_eq (map_snd_twice s₀.traders)
  relisted m among := by
    obtain ⟨t, -, rfl⟩ := List.mem_map.mp among
    exact ⟨t.ledger, t.settings.pairSymbols, rfl⟩
  ledgers := by rw [List.map_map]; exact h.ledgers₀
  ledgers₀ := h.ledgers₀
  names := h.names
  single := h.single
  world := rfl
  shelf := rfl
  books _ := rfl
  rests m among := by
    obtain ⟨t, -, rfl⟩ := List.mem_map.mp among
    rfl
  claims m among := by
    obtain ⟨t, -, rfl⟩ := List.mem_map.mp among
    rfl

theorem perm_targets (h : s.Mirrors view jobs s₀) (e : BlockEvent) :
    (s.targets e).Perm (s₀.targets e) := by
  have addresses : (s.traders.map fun t => t.listing.address).Perm
      (s₀.traders.map fun t => t.listing.address) := by
    refine .trans (.of_eq ?_) (h.known.map _)
    rw [h.traders, List.map_map, List.map_map]
    refine List.map_congr_left fun m job => ?_
    obtain ⟨number, entries, relisted⟩ := h.relisted m job
    simp only [Function.comp, relisted]
    rfl
  have due : ∀ a : OrderBookAddress,
      (a.pool ∈ e.pools || !s.scene.stores.pools.contains a.pool) =
        (a.pool ∈ e.pools || !s₀.scene.stores.pools.contains a.pool) := by
    intro a
    rw [Table.contains, Table.contains, h.books]
  refine perm_distinctPools (fun a among b among' => ?_) ?_
  · obtain ⟨t, trades, rfl⟩ := List.mem_map.mp (List.mem_filter.mp among).1
    obtain ⟨t', trades', rfl⟩ := List.mem_map.mp (List.mem_filter.mp among').1
    exact h.single t trades t' trades'
  · simp only [due]
    exact addresses.filter _

/-- The outlook of a block on the session that is mirrored suits both. -/
theorem expects (h : s.Mirrors view jobs s₀) {o : Outlook s₀.network height}
    (world : o.world = s₀.scene.world)
    (stores : o.stores = (s₀.scene.stores.settle [] ((s₀.targets e).map o.load)).1) :
    s.Expects o view (s.targets e) jobs where
  idle := h.idle
  network := h.network
  traders := h.traders
  suits := {
    relisted := h.relisted
    names := by
      rw [← Outlook.names_relisted h.relisted]
      exact ((h.known.map Trader.name).nodup_iff).mpr h.names
    ledgers := h.ledgers
    different := nodup_distinctPools _
    world := by rw [h.world, world]
    shelf := by rw [h.shelf, stores, Stores.shelf_settle]
    books := by
      intro sound pool
      have order := (h.perm_targets e).map o.load
      have sound : ∀ l ∈ (s₀.targets e).map o.load, l.unwinds = false := by
        intro l among
        obtain ⟨a, target, rfl⟩ := List.mem_map.mp (order.symm.subset among)
        exact sound a target
      rw [stores, h.books, Stores.get?_settle_of_perm (fun a _ => o.reads a) (nodup_distinctPools _)
        order.symm sound]
      rfl
    rests := by
      intro m job
      rw [stores, Stores.cooldowns_settle]
      exact h.rests m job
    claims := by
      intro m job
      rw [stores, Stores.ledger_settle]
      exact h.claims m job }

/-- The first of two sessions that mirror each other returns from a block. So does the other one,
with the same report, and they mirror each other afterwards. -/
theorem lands (h : s.Mirrors view jobs s₀) {o : Outlook s₀.network height} {report₀ : Report}
    (first : s₀'.Lands o view (s₀.targets e) (s₀.traders.map fun t => (t, t)) s₀.scene
      (.ok report₀))
    (second : s'.Lands o view (s.targets e) jobs s.scene r) :
    (∃ report, r = .ok report ∧ report.unnumbered = report₀.unnumbered ∧
      (o.Lasts (s₀.targets e) s₀.traders → s₀.scene.now < s₀'.scene.now) ∧
      (o.Lasts (s.targets e) (jobs.map (·.2)) → s.scene.now < s'.scene.now)) ∧
    s'.Mirrors view jobs s₀' := by
  have fulfilled₀ : o.Fulfilled view _ _ _ report₀ _ := first.ends
  have told := fulfilled₀.told
  have sound := fulfilled₀.sound
  have lasts := fulfilled₀.lasts
  rw [map_snd_twice] at told sound lasts
  cases r with
  | error a =>
    -- a part of the block unwinds, and would have done so in the first session
    have unsound : ¬ o.Sound _ _ := second.ends
    exact absurd (sound.of_perm (h.perm_targets e).symm h.known.symm) unsound
  | ok report =>
    have fulfilled : o.Fulfilled view _ _ _ report _ := second.ends
    refine ⟨⟨report, rfl, ?_, lasts, fulfilled.lasts⟩, ?_⟩
    · rw [fulfilled.told, told]
      refine Outlook.report_eq_of_perm (h.perm_targets e) h.known ?_
      exact ((h.known.map Trader.name).nodup_iff).mpr h.names
    · have sees₀ : ∀ m ∈ jobs, m.2.SeesAlike m.2 s₀'.scene.stores (o.landed m.2).stores :=
        fun m job => fulfilled₀.sees (m.2, m.2)
          (List.mem_map_of_mem (h.known.subset (List.mem_map_of_mem job)))
      have traders : s₀'.traders = s₀.traders := first.traders.trans (map_fst_twice _)
      exact {
        impartial := first.network.symm ▸ h.impartial
        idle := second.idle
        idle₀ := first.idle
        network := second.network.trans first.network.symm
        traders := second.traders
        known := traders ▸ h.known
        relisted := h.relisted
        ledgers := h.ledgers
        ledgers₀ := traders ▸ h.ledgers₀
        names := traders ▸ h.names
        single := traders ▸ h.single
        world := fulfilled.world.trans fulfilled₀.world.symm
        shelf := fulfilled.shelf.trans fulfilled₀.shelf.symm
        books := fun pool => (fulfilled.books pool).trans (fulfilled₀.books pool).symm
        rests := fun m job => (fulfilled.sees m job).cooldown.trans (sees₀ m job).cooldown.symm
        claims := fun m job => (fulfilled.sees m job).ledger.trans (sees₀ m job).ledger.symm }

/-- A block that does not unwind in the first of two sessions is told alike of both. -/
theorem tells (h : s.Mirrors view jobs s₀) {o : Outlook s₀.network height}
    (first : s₀'.Lands o view (s₀.targets e) (s₀.traders.map fun t => (t, t)) s₀.scene r₀)
    (second : s'.Lands o view (s.targets e) jobs s.scene r)
    (returns : (Account.block (some r₀)).Returns) :
    (Account.block (some r)).unnumbered = (Account.block (some r₀)).unnumbered ∧
      s'.Mirrors view jobs s₀' := by
  cases r₀ with
  | error a => exact absurd (returns _ (List.mem_singleton_self _)) Bool.false_ne_true
  | ok report₀ =>
    obtain ⟨⟨report, rfl, same, -⟩, mirrors⟩ := h.lands first second
    exact ⟨congrArg (fun r => Account.block (some (.ok r))) same, mirrors⟩

/-- Sessions that mirror each other have one outlook of a block. -/
theorem exists_outlook (h : s.Mirrors view jobs s₀) (e : BlockEvent) :
    ∃ o : Outlook s₀.network e.height,
      s₀.Expects o view (s₀.targets e) (s₀.traders.map fun t => (t, t)) ∧
        s.Expects o view (s.targets e) jobs := by
  obtain ⟨o, world, stores⟩ := Outlook.exists_outlook s₀.network e.height s₀.scene.world
    fun load => (s₀.scene.stores.settle [] ((s₀.targets e).map load)).1
  exact ⟨o, h.self.expects world stores, h.expects world stores⟩

section Performing

variable (h : s.Mirrors view jobs s₀)

include h

/-- They tell the same of a block. -/
theorem process (e : BlockEvent) (returns : (Account.block (s₀.process e).2).Returns) :
    (Account.block (s.process e).2).unnumbered = (Account.block (s₀.process e).2).unnumbered ∧
      (s.process e).1.Mirrors view jobs (s₀.process e).1 := by
  obtain ⟨o, expects₀, expects⟩ := h.exists_outlook e
  obtain ⟨s₀', r₀, ends₀, lands₀⟩ := expects₀.process h.impartial rfl
  obtain ⟨s', r, ends, lands⟩ := expects.process h.impartial rfl
  rw [ends₀] at returns
  rw [ends₀, ends]
  exact h.tells lands₀ lands returns

/-- They tell the same of blocks that arrive at once. -/
theorem follow (events : List BlockEvent) (returns : (Account.block (s₀.follow events).2).Returns) :
    (Account.block (s.follow events).2).unnumbered =
        (Account.block (s₀.follow events).2).unnumbered ∧
      (s.follow events).1.Mirrors view jobs (s₀.follow events).1 := by
  cases events with
  | nil => exact ⟨rfl, h⟩
  | cons e others =>
    obtain ⟨o, expects₀, expects⟩ := h.exists_outlook e
    obtain ⟨s₀', r₀, ends₀, lands₀⟩ := expects₀.follow h.impartial rfl others
    obtain ⟨s', r, ends, lands⟩ := expects.follow h.impartial rfl others
    rw [ends₀] at returns
    rw [ends₀, ends]
    exact h.tells lands₀ lands returns

/-- They tell the same of a block and of another one that arrives while it waits. -/
theorem overlap (e second : BlockEvent)
    (returns : (Account.overlap (s₀.overlap e second).2).Returns) :
    (Account.overlap (s.overlap e second).2).unnumbered =
        (Account.overlap (s₀.overlap e second).2).unnumbered ∧
      (s.overlap e second).1.Mirrors view jobs (s₀.overlap e second).1 := by
  obtain ⟨o, expects₀, expects⟩ := h.exists_outlook e
  have paused : o.Lasts (s₀.targets e) s₀.traders ↔ o.Lasts (s.targets e) (jobs.map (·.2)) :=
    ⟨.of_perm (h.perm_targets e).symm h.known.symm, .of_perm (h.perm_targets e) h.known⟩
  have first := expects₀.overlap h.impartial rfl second
  rw [map_snd_twice] at first
  rcases first with ⟨lasts₀, s₀', r₀ | report₀, ends₀, lands₀⟩ |
    ⟨s₀', r₀ | report₀, ends₀, lands₀, now₀⟩ <;> rw [ends₀] at returns
  · exact absurd (returns _ List.mem_cons_self) Bool.false_ne_true
  · rcases expects.overlap h.impartial rfl second with ⟨-, s', r, ends, lands⟩ |
      ⟨s', r, ends, lands, now⟩
    · obtain ⟨⟨report, rfl, same, -⟩, mirrors⟩ := h.lands lands₀ lands
      rw [ends₀, ends]
      exact ⟨congrArg (fun r => Account.overlap ⟨true, some (.ok r), _⟩) same, mirrors⟩
    · -- the one block waits, and so the other one cannot have ended by then
      obtain ⟨⟨-, -, -, -, later⟩, -⟩ := h.lands lands₀ lands
      exact absurd now (later (paused.mp lasts₀)).ne'
  · exact absurd (returns _ List.mem_cons_self) Bool.false_ne_true
  · rcases expects.overlap h.impartial rfl second with ⟨lasts, s', r, -, lands⟩ |
      ⟨s', r, ends, lands, -⟩
    · obtain ⟨⟨-, -, -, later₀, -⟩, -⟩ := h.lands lands₀ lands
      exact absurd now₀ (later₀ (paused.mpr lasts)).ne'
    · obtain ⟨⟨report, rfl, same, -⟩, mirrors⟩ := h.lands lands₀ lands
      have returns' : (Account.block (s₀'.process second).2).Returns := fun r among =>
        returns r (List.mem_cons_of_mem _ among)
      obtain ⟨same', mirrors⟩ := mirrors.process second returns'
      rw [ends₀, ends]
      refine ⟨?_, mirrors⟩
      rw [Account.unnumbered, Account.unnumbered, Account.block.injEq] at same'
      rw [Account.unnumbered, Account.unnumbered, same']
      exact congrArg (fun r => Account.overlap ⟨false, some (.ok r), _⟩) same

end Performing

/-- Sessions that mirror each other tell the same of all that is done with both of them, and mirror
each other afterwards, as long as no block unwinds. -/
theorem perform (h : s.Mirrors view jobs s₀) (a : Act σ) (blind : a.Blind view)
    (returns : (s₀.perform a).2.Returns) :
    (s.perform a).2.unnumbered = (s₀.perform a).2.unnumbered ∧
      (s.perform a).1.Mirrors view jobs (s₀.perform a).1 := by
  cases a with
  | feed shelf =>
    exact ⟨rfl, { h with
      idle := ⟨h.idle.nobody, h.idle.free⟩
      idle₀ := ⟨h.idle₀.nobody, h.idle₀.free⟩
      shelf := rfl }⟩
  | alter f =>
    exact ⟨rfl, { h with
      idle := ⟨h.idle.nobody, h.idle.free⟩
      idle₀ := ⟨h.idle₀.nobody, h.idle₀.free⟩
      world := blind _ _ h.world }⟩
  | block e => exact h.process e returns
  | overlap first second => exact h.overlap first second returns
  | follow events => exact h.follow events returns

/-- So do they of whole runs. -/
theorem performAll (h : s.Mirrors view jobs s₀) (acts : List (Act σ))
    (blind : ∀ a ∈ acts, a.Blind view) (returns : ∀ a ∈ (s₀.performAll acts).2, a.Returns) :
    (s.performAll acts).2.map Account.unnumbered =
      (s₀.performAll acts).2.map Account.unnumbered := by
  induction acts generalizing s s₀ with
  | nil => rfl
  | cons a acts ih =>
    obtain ⟨first, others⟩ := List.forall_mem_cons.mp returns
    obtain ⟨same, mirrors⟩ := h.perform a (blind a List.mem_cons_self) first
    rw [Session.performAll, Session.performAll, List.map_cons, List.map_cons, same,
      ih mirrors (fun a among => blind a (List.mem_cons_of_mem _ among)) others]

end Mirrors

end Session

end CrossBook.Engine
