import CrossBook.Proofs.Engine.Histories

/-!
# The snapshots of pools

Cycles trade on the orders of their pools that were read last. Each block reads the pools it touched
and those whose orders were never read, before any of its cycles begins. A pool whose ticks are not
told keeps its orders, and whether the next block reads it depends on that block alone: neither a
failed reading nor a block that was turned away is remembered.

## Main definitions

* `Engine.Due` — a block has to read a pool
* `Engine.Session.IsTrading` — the cycles of a block run

## Main results

* `Engine.Session.snapshots_of_readings` — where snapshots come from, and which pools blocks read
-/

namespace CrossBook.Engine

variable {σ : Type}

/-! ### Different pools -/

namespace Session

variable {addresses : List OrderBookAddress} {a : OrderBookAddress}

theorem mem_of_mem_distinctPools (h : a ∈ distinctPools addresses) : a ∈ addresses := by
  induction addresses with
  | nil => exact h
  | cons b rest ih =>
    rcases List.mem_cons.mp h with rfl | later
    · exact List.mem_cons_self
    · exact List.mem_cons_of_mem _ (ih (List.mem_filter.mp later).1)

theorem nodup_distinctPools (addresses : List OrderBookAddress) :
    ((distinctPools addresses).map (·.pool)).Nodup := by
  induction addresses with
  | nil => exact List.nodup_nil
  | cons a rest ih =>
    refine List.nodup_cons.mpr ⟨?_, ih.sublist (List.filter_sublist.map _)⟩
    rw [List.mem_map]
    rintro ⟨b, later, same⟩
    simp [same] at later

/-- Of addresses with the same pool one is left. -/
theorem exists_mem_distinctPools (h : a ∈ addresses) :
    ∃ b ∈ distinctPools addresses, b.pool = a.pool := by
  induction addresses with
  | nil => cases h
  | cons b rest ih =>
    by_cases same : b.pool = a.pool
    · exact ⟨b, List.mem_cons_self, same⟩
    · rcases List.mem_cons.mp h with rfl | later
      · exact absurd rfl same
      · obtain ⟨c, among, pool⟩ := ih later
        refine ⟨c, List.mem_cons_of_mem _ (List.mem_filter.mpr ⟨among, ?_⟩), pool⟩
        simpa [pool] using Ne.symm same

end Session

/-! ### What a block has to read -/

/-- A block has to read a pool after some log: it touched it, or the orders were never read. -/
def Due (log : List Occurrence) (e : BlockEvent) (pool : Nat) : Prop :=
  pool ∈ e.pools ∨ lastRead log pool = none

section Reading

variable {traders : List Trader} {log before after : List Occurrence} {e : BlockEvent}
  {a : OrderBookAddress} {left : List OrderBookAddress}

theorem mem_toRead (h : a ∈ toRead traders log e) :
    Due log e a.pool ∧ ∃ t ∈ traders, t.listing.address = a := by
  obtain ⟨among, due⟩ := List.mem_filter.mp (Session.mem_of_mem_distinctPools h)
  rw [Bool.or_eq_true, decide_eq_true_iff, Option.isNone_iff_eq_none] at due
  exact ⟨due, List.mem_map.mp among⟩

theorem exists_mem_toRead {t : Trader} (h : t ∈ traders) (due : Due log e t.listing.address.pool) :
    ∃ a ∈ toRead traders log e, a.pool = t.listing.address.pool := by
  refine Session.exists_mem_distinctPools
    (List.mem_filter.mpr ⟨List.mem_map_of_mem (f := fun t => t.listing.address) h, ?_⟩)
  rwa [Bool.or_eq_true, decide_eq_true_iff, Option.isNone_iff_eq_none]

/-- A block reads no pool twice. -/
theorem HasRead.nodup (h : HasRead traders before e after left) :
    ((readings after).map (·.pool)).Nodup := by
  obtain ⟨done, results, reads, all⟩ := h
  have pools : (readings after).map (·.pool) = (done.map (·.1)).map (·.pool) := by
    rw [← results, List.map_map, List.map_map]
    exact List.map_congr_left fun m among => (reads m among).pool_eq
  rw [pools]
  have distinct := ((all.map (·.pool)).nodup_iff).mpr (Session.nodup_distinctPools _)
  rw [List.map_append] at distinct
  exact (List.nodup_append.mp distinct).2.1

/-- What a block reads is a pool of a trader, which is due, and the orders it reads are those of the
pool at the height of the block. -/
theorem HasRead.due (h : HasRead traders before e after left) {l : Load} (read : l ∈ readings after) :
    Due before e l.pool ∧ (∃ t ∈ traders, t.listing.address.Reads e.height l) ∧
      ∀ book, l.result = .ok book → book.pool = l.pool ∧ book.height = e.height := by
  obtain ⟨done, results, reads, all⟩ := h
  rw [← results] at read
  obtain ⟨m, among, rfl⟩ := List.mem_map.mp read
  obtain ⟨due, t, listed, same⟩ := mem_toRead
    (all.subset (List.mem_append_right _ (List.mem_map_of_mem among)))
  refine ⟨?_, ⟨t, listed, ?_⟩, fun book told => ?_⟩
  · rw [(reads m among).pool_eq]
    exact due
  · rw [same]
    exact reads m among
  · rw [(reads m among).pool_eq]
    exact (reads m among).book_eq told

/-- When nothing is left to read, all pools that were due have been read. -/
theorem HasRead.complete (h : HasRead traders before e after []) {t : Trader} (listed : t ∈ traders)
    (due : Due before e t.listing.address.pool) :
    ∃ l ∈ readings after, l.pool = t.listing.address.pool := by
  obtain ⟨done, results, reads, all⟩ := h
  obtain ⟨a, among, pool⟩ := exists_mem_toRead listed due
  obtain ⟨m, read, rfl⟩ := List.mem_map.mp (all.symm.subset among)
  refine ⟨m.2, results ▸ List.mem_map_of_mem read, ?_⟩
  rw [(reads m read).pool_eq, pool]

end Reading

/-! ### Snapshots -/

namespace Session

variable {s s' : Session σ} {log before after : List Occurrence} {e : BlockEvent}

/-- The cycles of a block run. -/
def IsTrading (s : Session σ) : Prop :=
  ∃ permit height refreshed fleet outcomes,
    s.flights = [(permit, .trading height refreshed fleet outcomes)]

instance (s : Session σ) : Decidable s.IsTrading :=
  match one : s.flights with
  | [(permit, .trading height refreshed fleet outcomes)] =>
    isTrue ⟨permit, height, refreshed, fleet, outcomes, one⟩
  | [] => isFalse fun ⟨_, _, _, _, _, one'⟩ => by simp [one] at one'
  | [(_, .refreshing _ _ _)] => isFalse fun ⟨_, _, _, _, _, one'⟩ => by simp [one] at one'
  | _ :: _ :: _ => isFalse fun ⟨_, _, _, _, _, one'⟩ => by simp [one] at one'

/-- The last block that was admitted has read some of the pools it has to read: all of them, when
its cycles run or when it has ended and did not unwind. -/
theorem Orderly.hasRead (h : s.Orderly log) (since : Since log before e after) :
    ∃ left, HasRead s.traders before e after left ∧
      (s.IsTrading ∨ (∃ r, .ended (.ok r) ∈ after) → left = []) := by
  cases h.stands with
  | idle nobody free reads ledgers =>
    obtain ⟨left, reads, complete⟩ := reads before e after since
    refine ⟨left, reads, fun past => past.elim ?_ complete⟩
    rintro ⟨_, _, _, _, _, one⟩
    exact absurd (nobody.symm.trans one) (by simp)
  | refreshing flight reads serves ledgers =>
    obtain ⟨rfl, rfl, rfl⟩ := flight.since.unique since
    refine ⟨_, reads, fun past => past.elim ?_ ?_⟩
    · rintro ⟨_, _, _, _, _, one⟩
      exact absurd (flight.one.symm.trans one) (by simp)
    · rintro ⟨r, ended⟩
      exact absurd ended (flight.going _)
  | trading flight reads serves cycles ledgers =>
    obtain ⟨rfl, rfl, rfl⟩ := flight.since.unique since
    exact ⟨[], reads, fun _ => rfl⟩

/-- As long as cycles run, whoever has had their turns, they find the orders that were read last. -/
theorem Orderly.get?_of_run (h : s.Orderly log) {permit height : Nat} {refreshed : List Nat}
    {fleet : Fleet Landing} {outcomes : List PairOutcome}
    (one : s.flights = [(permit, .trading height refreshed fleet outcomes)]) (count pool : Nat) :
    (fleet.run s.network count s.scene).1.stores.pools.get? pool = lastRead log pool := by
  rw [← h.snapshots]
  cases h.stands with
  | idle nobody => exact absurd (nobody.symm.trans one) (by simp)
  | refreshing flight => exact absurd (flight.one.symm.trans one) (by simp)
  | @trading _ _ _ _ _ _ _ left done flight reads serves cycles ledgers =>
    obtain ⟨⟨⟩, -⟩ := List.cons.inj (flight.one.symm.trans one)
    have different : (left ++ done).Pairwise fun t t' => t.ledger ≠ t'.ledger :=
      (cycles.pairwise_iff Ne.symm).mpr h.different
    have changes :=
      (serves.run count (tradingPairs_apart (List.pairwise_append.mp different).1)).2
    rw [(confined_of_trading changes).1]

/-- A block that arrives while another one is in flight is turned away, and nothing else is
changed. -/
theorem Orderly.arrive_of_inFlight (h : s.Orderly log) (busy : s.flights ≠ []) (e : BlockEvent) :
    s.arrive e = ({ s with guard := ⟨s.guard.held, s.guard.asked + 1⟩ }, none) := by
  cases h.stands with
  | idle nobody => exact absurd nobody busy
  | refreshing flight => rw [arrive_of_held e flight.held, flight.held]
  | trading flight => rw [arrive_of_held e flight.held, flight.held]

/-- After any history of a session whose pairs were listed, the snapshot of each pool is what was
read last of it with success, also whenever a cycle has its turn. Since the last block was admitted
no pool was read twice; what was read was due, and was read at the height of the block. When the
cycles of that block run, or when it has ended and did not unwind, the pools that were read are just
those that were due after the log before it. And as long as a block is in flight, others are turned
away and change nothing. -/
theorem snapshots_of_readings {settings : Settings} {s₀ : Session σ} {moves : List (Move σ)}
    (listed : s.list settings = (s₀, .ok ())) (happened : s₀.history moves = (s', log)) :
    (∀ pool, s'.scene.stores.pools.get? pool = lastRead log pool) ∧
    (∀ permit height refreshed fleet outcomes,
      s'.flights = [(permit, .trading height refreshed fleet outcomes)] → ∀ count pool,
        (fleet.run s'.network count s'.scene).1.stores.pools.get? pool = lastRead log pool) ∧
    (∀ before e after, Since log before e after →
      ((readings after).map (·.pool)).Nodup ∧
      (∀ l ∈ readings after,
        Due before e l.pool ∧ (∃ t ∈ s'.traders, t.listing.address.Reads e.height l) ∧
          ∀ book, l.result = .ok book → book.pool = l.pool ∧ book.height = e.height) ∧
      (s'.IsTrading ∨ (∃ r, .ended (.ok r) ∈ after) → ∀ t ∈ s'.traders,
        (∃ l ∈ readings after, l.pool = t.listing.address.pool) ↔
          Due before e t.listing.address.pool)) ∧
    (s'.flights ≠ [] → ∀ e,
      s'.arrive e = ({ s' with guard := ⟨s'.guard.held, s'.guard.asked + 1⟩ }, none)) := by
  have orderly := (orderly_list listed).history moves
  rw [happened, List.nil_append] at orderly
  refine ⟨orderly.snapshots, fun _ _ _ _ _ one => orderly.get?_of_run one, ?_,
    fun busy => orderly.arrive_of_inFlight busy⟩
  intro before e after since
  obtain ⟨left, reads, complete⟩ := orderly.hasRead since
  refine ⟨reads.nodup, fun l read => reads.due read, fun past t among => ⟨?_, ?_⟩⟩
  · rintro ⟨l, read, pool⟩
    rw [← pool]
    exact (reads.due read).1
  · obtain rfl := complete past
    exact reads.complete among

/-! ### A chain that cannot always be read -/

/-- A network that answers at once. Its world says whether it tells the ticks of pools. -/
def patchyNetwork : Network Bool where
  waits _ _ := []
  answer
    | .orderBook _ _, w => (w, .ok ⟨1, "book"⟩)
    | .venueMinimums _, w => (w, .ok {})
    | .activeTicks _, w => (w, if w then .ok [7] else .error (.execution (.requestFailed "closed")))
    | .restingOrders _ tick, w => (w, .ok [.fresh tick 1 "bid" "maker" (.ofWord 5 0)])
    | .venueBalances, w => (w, .ok .empty)
    | .chainBalances _, w => (w, .ok [])
    | _, w => (w, .error (.execution (.requestFailed "closed")))
  limitSecs := 10

/-- The session that trades the pair, before its first block. The venue offers nothing. -/
def patchySession : Session Bool := ((unlisted patchyNetwork true []).list onePair).1

/-- The orders of the pool at a height. -/
def patchyBook (height : Nat) : Chain.RestingBook :=
  ⟨1, height, [.fresh 7 1 "bid" "maker" (.ofWord 5 0)], []⟩

/-- The report of a block in which the pair found nothing to trade. -/
def quietReport (height : Nat) (refreshed : List Nat) : Report :=
  .processed height refreshed [⟨"OSMO/USDC", .skipped .noOpportunity⟩]

/-- The first block reads the pool, and the second one cannot. -/
def patchyMoves : List (Move Bool) :=
  wholeBlock 0 4 ⟨100, [1]⟩ ++ [.alter fun _ => false] ++ wholeBlock 1 4 ⟨101, [1]⟩

/-- The pool keeps the orders of the first block, which is the last one that read them. -/
theorem snapshots_of_readings_of_patchyMoves : ∃ s log,
    (unlisted patchyNetwork true []).list onePair = (patchySession, .ok ()) ∧
    patchySession.history patchyMoves = (s, log) ∧
    s.scene.stores.pools.get? 1 = lastRead log 1 ∧ lastRead log 1 = some (patchyBook 100) ∧
    (∀ before e after, Since log before e after → ((readings after).map (·.pool)).Nodup) := by
  have listed : (unlisted patchyNetwork true []).list onePair = (patchySession, .ok ()) := rfl
  have history : patchySession.history patchyMoves = (_, _) := rfl
  obtain ⟨snapshots, -, blocks, -⟩ := snapshots_of_readings listed history
  exact ⟨_, _, listed, history, snapshots 1, by decide +kernel,
    fun before e after since => (blocks before e after since).1⟩

/-- A pool whose ticks were not told when a block touched it is not read by the next block, nor is a
pool touched by a block that was turned away. -/
theorem touched_pools_forgotten :
    (patchySession.history
        (patchyMoves ++ [.alter fun _ => true] ++ wholeBlock 2 4 ⟨102, []⟩)).2 =
      [.admitted ⟨100, [1]⟩, .read ⟨1, .ok (patchyBook 100)⟩, .ended (.ok (quietReport 100 [1])),
        .admitted ⟨101, [1]⟩, .read ⟨1, .error (.execution (.requestFailed "closed"))⟩,
        .ended (.ok (quietReport 101 [])),
        .admitted ⟨102, []⟩, .ended (.ok (quietReport 102 []))] ∧
    (patchySession.history ([.arrive ⟨100, [1]⟩, .arrive ⟨101, [1]⟩] ++
        List.replicate 4 (.resume .foreground 0) ++ wholeBlock 2 4 ⟨102, []⟩)).2 =
      [.admitted ⟨100, [1]⟩, .turnedAway ⟨101, [1]⟩, .read ⟨1, .ok (patchyBook 100)⟩,
        .ended (.ok (quietReport 100 [1])),
        .admitted ⟨102, []⟩, .ended (.ok (quietReport 102 []))] := by
  decide +kernel

end Session

end CrossBook.Engine
