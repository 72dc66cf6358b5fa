import CrossBook.Proofs.Chain.Priority
import CrossBook.Proofs.Engine.Outlooks
import CrossBook.Proofs.Engine.Tellings
import CrossBook.Proofs.Engine.Validity

/-!
# Refreshing pools

Pools are read all together, and each of them at all its ticks together, so what is read comes in
whatever order it comes. Which pools are refreshed, and what is known of each pool afterwards, only
depends on what the calls are told: a pool whose ticks are told gets the orders of those ticks that
are told in their turn, and every other pool keeps what is known of it.

## Main definitions

* `Engine.Network.ticksTold`, `Network.ordersTold` — what is told of a pool
* `Engine.Network.loadTold` — what reading a pool comes to
* `Engine.Flight.Refreshing` — pools that are on their way to being refreshed
* `Engine.Network.Refreshes` — what has become of the stores when pools have been refreshed

## Main results

* `Engine.Flight.Refreshing.meets_step` — one step on the way, whatever it is
* `Engine.Flight.Refreshed.refreshes` — pools that have all been taken in have been refreshed
* `Engine.Session.exists_refreshes` — so they are when a refresh ends
* `Engine.Session.refresh_reads` — the pools that are refreshed, and what is known of all pools
-/

namespace CrossBook.Engine

variable {σ τ : Type} {net : Network σ} {view : σ → τ} {world : σ} {height : Nat}

/-! ### One pool -/

namespace Network

/-- The active ticks of a pool, as a world tells them. -/
def ticksTold (net : Network σ) (world : σ) (pool : Nat) : Except Error (List Int) :=
  net.told world (.activeTicks pool)

/-- The orders of a contract at some ticks, those of them that a world tells. -/
def ordersTold (net : Network σ) (world : σ) (contract : String) (ticks : List Int) :
    List Chain.Order :=
  ticks.flatMap fun tick =>
    match net.told world (.restingOrders contract tick) with
    | .ok (orders : List Chain.Order) => orders
    | .error _ => []

/-- What reading a pool comes to, as a world tells it. -/
def loadTold (net : Network σ) (world : σ) (height : Nat) (a : OrderBookAddress) : Load where
  pool := a.pool
  result :=
    match net.ticksTold world a.pool with
    | .ok ticks => restingOrders a.pool height (net.ordersTold world a.contract ticks)
    | .error e => .error e

/-- The orders that are read are those that are told. -/
theorem ordersRead_given (net : Network σ) (world : σ) (contract : String) (ticks : List Int) :
    ordersRead contract ticks (.given (net.told world) (ticks.map (Call.restingOrders contract))) =
      net.ordersTold world contract ticks := by
  induction ticks with
  | nil => rfl
  | cons tick ticks ih =>
    rw [ordersTold, List.flatMap_cons]
    change ordersRead contract (tick :: ticks)
      (.cons (net.told world (.restingOrders contract tick)) (.given (net.told world) _)) = _
    cases net.told world (.restingOrders contract tick) with
    | ok orders => exact congrArg (List.append (orders : List Chain.Order)) ih
    | error e => exact ih

/-- What reading a pool comes to is foretold. -/
theorem foretold?_load (net : Network σ) (world : σ) (height : Nat) (a : OrderBookAddress) :
    (a.load height).foretold? (net.told world) = some (net.loadTold world height a) := by
  rw [OrderBookAddress.load, Program.foretold?_call _ rfl, loadTold, ticksTold]
  cases net.told world (.activeTicks a.pool) with
  | error e => rfl
  | ok ticks =>
    have reads : ∀ c ∈ ticks.map (Call.restingOrders a.contract), c.readsPool :=
      List.forall_mem_map.mpr fun _ _ => rfl
    dsimp only
    rw [Program.foretold?_ask _ reads, Program.foretold?]
    exact congrArg (fun orders => some (⟨a.pool, restingOrders a.pool height orders⟩ : Load))
      (net.ordersRead_given world a.contract ticks)

theorem reads_loadTold (net : Network σ) (world : σ) (height : Nat) (a : OrderBookAddress) :
    a.Reads height (net.loadTold world height a) := by
  rw [loadTold]
  cases net.ticksTold world a.pool with
  | error e => exact .untold e
  | ok ticks =>
    dsimp only
    rw [← ordersRead_given]
    exact .told ticks _

theorem loadTold_of_error {a : OrderBookAddress} {e : Error}
    (told : net.ticksTold world a.pool = .error e) :
    net.loadTold world height a = ⟨a.pool, .error e⟩ := by
  simp only [loadTold, told]

/-- A pool whose ticks are told is read when the orders at them all have a side. -/
theorem exists_loadTold {a : OrderBookAddress} {ticks : List Int}
    (told : net.ticksTold world a.pool = .ok ticks)
    (sided : ∀ o ∈ net.ordersTold world a.contract ticks, ∃ side, o.side = .ok side) :
    ∃ b, Chain.RestingBook.ofOrders a.pool height (net.ordersTold world a.contract ticks) = .ok b ∧
      net.loadTold world height a = ⟨a.pool, .ok b⟩ := by
  obtain ⟨b, sorted⟩ := Chain.RestingBook.exists_ofOrders_iff.mpr sided
  exact ⟨b, sorted, by simp only [loadTold, told, restingOrders_eq_ok_iff.mpr sorted]⟩

/-- Then the orders that are told are known of it. -/
theorem exists_book?_loadTold {a : OrderBookAddress} {ticks : List Int}
    (told : net.ticksTold world a.pool = .ok ticks)
    (sided : ∀ o ∈ net.ordersTold world a.contract ticks, ∃ side, o.side = .ok side) :
    ∃ b, Chain.RestingBook.ofOrders a.pool height (net.ordersTold world a.contract ticks) = .ok b ∧
      (net.loadTold world height a).book? a.pool = some b := by
  obtain ⟨b, sorted, read⟩ := exists_loadTold told sided
  have this := ((net.reads_loadTold world height a).book_eq (congrArg Load.result read)).1
  exact ⟨b, sorted, by simp only [read, Load.book?, if_pos this]⟩

/-- A pool does not unwind when its orders all have a side and no error that is met instead of its
ticks says that the state cannot be. -/
theorem unwinds_loadTold {a : OrderBookAddress}
    (plain : ∀ e, net.ticksTold world a.pool = .error e → e.severity ≠ .invalidState)
    (sided : ∀ ticks, net.ticksTold world a.pool = .ok ticks →
      ∀ o ∈ net.ordersTold world a.contract ticks, ∃ side, o.side = .ok side) :
    (net.loadTold world height a).unwinds = false := by
  cases told : net.ticksTold world a.pool with
  | error e => simpa [loadTold_of_error told, Load.unwinds] using plain e told
  | ok ticks =>
    obtain ⟨b, -, read⟩ := exists_loadTold told (sided ticks told)
    rw [read]
    rfl

/-- A pool is refreshed when its ticks are told. -/
theorem refreshed?_loadTold_iff {a : OrderBookAddress} {pool : Nat}
    (sided : ∀ ticks, net.ticksTold world a.pool = .ok ticks →
      ∀ o ∈ net.ordersTold world a.contract ticks, ∃ side, o.side = .ok side) :
    (net.loadTold world height a).refreshed? = some pool ↔
      a.pool = pool ∧ ∃ ticks, net.ticksTold world pool = .ok ticks := by
  cases told : net.ticksTold world a.pool with
  | error e =>
    rw [loadTold_of_error told, Load.refreshed?]
    refine iff_of_false (fun read => Option.some_ne_none _ read.symm) ?_
    rintro ⟨rfl, ticks, told'⟩
    cases told.symm.trans told'
  | ok ticks =>
    obtain ⟨b, -, read⟩ := exists_loadTold told (sided ticks told)
    rw [read, Load.refreshed?, Option.some.injEq]
    exact ⟨fun same => ⟨same, ticks, same ▸ told⟩, And.left⟩

end Network

/-! ### Pools on their way -/

namespace Flight

/-- Pools that are refreshed on their own, since some scene, are on their way to what reading them
comes to in the world of that scene. -/
inductive Refreshing (net : Network σ) (view : σ → τ) (height : Nat)
    (targets : List OrderBookAddress) (s₀ : Scene σ) : Flight → Scene σ → Prop
  | reading {fleet : Fleet Load} {refreshed : List Nat} {loads : List Load} {s : Scene σ}
      (onCourse : fleet.OnCourse net view s₀.world loads
        (targets.map (net.loadTold s₀.world height)) s)
      (taken : s₀.stores.settle [] loads = (s.stores, .ok refreshed)) :
      Refreshing net view height targets s₀ (.refreshing height fleet refreshed) s
  | read {refreshed : List Nat} {loads : List Load} {s : Scene σ}
      (all : loads.Perm (targets.map (net.loadTold s₀.world height)))
      (taken : s₀.stores.settle [] loads = (s.stores, .ok refreshed)) :
      Refreshing net view height targets s₀
        (.trading height (refreshed.mergeSort fun a b => a ≤ b) (.launch []) []) s

/-- All pools have been taken in, in some order, and nothing else has happened. -/
def Refreshed (net : Network σ) (height : Nat) (targets : List OrderBookAddress) (s₀ : Scene σ)
    (r : Except Abort Report) (s : Scene σ) : Prop :=
  ∃ loads refreshed, loads.Perm (targets.map (net.loadTold s₀.world height)) ∧
    s₀.stores.settle [] loads = (s.stores, .ok refreshed) ∧
    r = .ok (.processed height (refreshed.mergeSort fun a b => a ≤ b) [])

variable {targets : List OrderBookAddress} {s₀ s : Scene σ} {f : Flight} {post : Post}

theorem refreshing_launch (net : Network σ) (view : σ → τ) (height : Nat)
    (targets : List OrderBookAddress) (s₀ : Scene σ) :
    Refreshing net view height targets s₀ (launch height targets) s₀ := by
  have nothing : s₀.stores.settle [] [] = (s₀.stores, .ok []) := rfl
  refine .reading (Fleet.onCourse_launch ?_ rfl) nothing
  rw [List.map_map, List.map_map]
  exact List.map_congr_left fun a _ => net.foretold?_load s₀.world height a

/-- Whatever happens next, pools stay on their way, and in the end they have all been taken in. -/
theorem Refreshing.meets_step (tells : net.Tells view)
    (sound : ∀ a ∈ targets, (net.loadTold s₀.world height a).unwinds = false)
    (h : Refreshing net view height targets s₀ f s) :
    Progress.Meets (Refreshing net view height targets s₀) (Refreshed net height targets s₀)
      (f.step net [] post s) := by
  cases h with
  | read all taken =>
    have nothing : sortOutcomes [] = [] := List.mergeSort_nil
    refine ⟨_, _, all, taken, ?_⟩
    rw [List.append_nil, nothing]
  | @reading fleet refreshed loads _ onCourse taken =>
    rw [step]
    cases proceeds : fleet.proceed? net post s with
    | some r =>
      obtain ⟨onCourse, stores⟩ := onCourse.proceed tells proceeds
      exact .reading onCourse (stores ▸ taken)
    | none =>
      dsimp only
      have more := Stores.settle_append fleet.finished taken
      unfold collectLoads
      rcases settled : s.stores.settle refreshed fleet.finished with ⟨stores, a | all⟩
      · -- a pool that unwinds would be one of those that were foretold not to
        obtain ⟨l, among, unwinds⟩ := Stores.exists_unwinds_of_settle settled
        obtain ⟨b, target, rfl⟩ :=
          List.mem_map.mp (onCourse.mem_values (List.mem_append_right _ among))
        rw [sound b target] at unwinds
        cases unwinds
      · rw [settled] at more
        dsimp only
        split_ifs with done
        · exact .read (onCourse.complete done) more
        · exact .reading (onCourse.collect stores) more

end Flight

/-! ### Pools that are taken in -/

theorem pairwise_lt_mergeSort {pools : List Nat} (different : pools.Nodup) :
    (pools.mergeSort fun a b => a ≤ b).Pairwise (· < ·) := by
  have sorted : (pools.mergeSort fun a b => a ≤ b).Pairwise fun a b => decide (a ≤ b) = true :=
    List.pairwise_mergeSort (by simpa using fun a b c => Nat.le_trans)
      (by simpa using Nat.le_total) pools
  have apart := ((List.mergeSort_perm pools fun a b => a ≤ b).nodup_iff).mpr different
  exact (sorted.and apart).imp fun ⟨le, ne⟩ => lt_of_le_of_ne (of_decide_eq_true le) ne

section TakenIn

variable {load : OrderBookAddress → Load} {targets : List OrderBookAddress} {loads : List Load}

theorem mem_refreshed_iff (read : loads.Perm (targets.map load)) {pool : Nat} :
    pool ∈ loads.filterMap Load.refreshed? ↔ ∃ a ∈ targets, (load a).refreshed? = some pool := by
  rw [(read.filterMap _).mem_iff, List.filterMap_map, List.mem_filterMap]
  rfl

/-- Of different pools each is refreshed at most once. -/
theorem nodup_refreshed (reads : ∀ a ∈ targets, a.Reads height (load a))
    (different : (targets.map (·.pool)).Nodup) (read : loads.Perm (targets.map load)) :
    (loads.filterMap Load.refreshed?).Nodup := by
  have pools : (targets.map load).map (·.pool) = targets.map (·.pool) := by
    rw [List.map_map]
    exact List.map_congr_left fun a target => (reads a target).pool_eq
  have once := ((read.map (·.pool)).nodup_iff).mpr (pools ▸ different)
  -- a pool is refreshed at most as often as it is read
  refine once.sublist ?_
  clear read once
  induction loads with
  | nil => exact .slnil
  | cons l rest ih =>
    cases result : l.result with
    | ok b =>
      rw [List.filterMap_cons_some (b := l.pool) (by rw [Load.refreshed?, result])]
      exact ih.cons_cons _
    | error e =>
      rw [List.filterMap_cons_none (by rw [Load.refreshed?, result])]
      exact ih.cons _

/-- Of different pools that are read, one has the orders that were read of it. -/
theorem findSome?_book (reads : ∀ a ∈ targets, a.Reads height (load a))
    (different : (targets.map (·.pool)).Nodup) {a : OrderBookAddress} (target : a ∈ targets) :
    (targets.findSome? fun b => (load b).book? a.pool) = (load a).book? a.pool := by
  obtain ⟨before, after, rfl⟩ := List.append_of_mem target
  rw [List.map_append, List.map_cons, List.nodup_middle, ← List.map_append, List.nodup_cons,
    List.mem_map] at different
  -- the addresses before and after it are of other pools
  have others : ∀ b ∈ before ++ after, (load b).book? a.pool = none := by
    intro b other
    have among : b ∈ before ++ a :: after :=
      List.perm_middle.symm.subset (List.mem_cons_of_mem _ other)
    exact (reads b among).book?_eq_none fun same => different.1 ⟨b, other, same⟩
  obtain ⟨earlier, later⟩ := List.forall_mem_append.mp others
  rw [List.findSome?_append, List.findSome?_eq_none_iff.mpr earlier, Option.none_or,
    List.findSome?_cons, List.findSome?_eq_none_iff.mpr later]
  cases (load a).book? a.pool <;> rfl

end TakenIn

/-- Pools have been refreshed in a world, between two states of the stores. Those whose ticks are
told were refreshed, each of them once and in ascending order. The orders that are told at its ticks
are known of such a pool, at the height that was asked for, and what is known of any other pool has
stayed. -/
structure Network.Refreshes (net : Network σ) (world : σ) (height : Nat)
    (targets : List OrderBookAddress) (before after : Stores) (refreshed : List Nat) : Prop where
  ascending : refreshed.Pairwise (· < ·)
  mem_iff : ∀ pool, pool ∈ refreshed ↔ ∃ a ∈ targets, a.pool = pool ∧
    ∃ ticks, net.ticksTold world pool = .ok ticks
  books : ∀ a ∈ targets, ∀ ticks, net.ticksTold world a.pool = .ok ticks →
    ∃ b, after.pools.get? a.pool = some b ∧ Chain.RestingBook.ofOrders a.pool height
      (net.ordersTold world a.contract ticks) = .ok b
  others : ∀ pool ∉ refreshed, after.pools.get? pool = before.pools.get? pool

/-- Different pools whose orders all have a side are refreshed when they have all been taken in. -/
theorem Flight.Refreshed.refreshes {targets : List OrderBookAddress} {s₀ s : Scene σ}
    {r : Except Abort Report} (h : Flight.Refreshed net height targets s₀ r s)
    (different : (targets.map (·.pool)).Nodup)
    (sided : ∀ a ∈ targets, ∀ ticks, net.ticksTold s₀.world a.pool = .ok ticks →
      ∀ o ∈ net.ordersTold s₀.world a.contract ticks, ∃ side, o.side = .ok side) :
    ∃ refreshed, r = .ok (.processed height refreshed []) ∧
      net.Refreshes s₀.world height targets s₀.stores s.stores refreshed := by
  obtain ⟨loads, refreshed, read, taken, rfl⟩ := h
  have reads (a : OrderBookAddress) (_ : a ∈ targets) := net.reads_loadTold s₀.world height a
  have books := s₀.stores.get?_settle_of_perm reads different read fun l =>
    Stores.not_unwinds_of_settle taken
  have all := Stores.refreshed_of_settle taken
  rw [List.nil_append] at all
  subst all
  rw [taken] at books
  have members (pool : Nat) :
      pool ∈ (loads.filterMap Load.refreshed?).mergeSort (fun a b => a ≤ b) ↔
        ∃ a ∈ targets, a.pool = pool ∧ ∃ ticks, net.ticksTold s₀.world pool = .ok ticks := by
    rw [List.mem_mergeSort, mem_refreshed_iff read]
    exact exists_congr fun a => and_congr_right fun target =>
      Network.refreshed?_loadTold_iff (sided a target)
  refine ⟨_, rfl, pairwise_lt_mergeSort (nodup_refreshed reads different read), members,
    fun a target ticks told => ?_, fun pool out => ?_⟩
  · obtain ⟨b, sorted, book⟩ := Network.exists_book?_loadTold told (sided a target ticks told)
    refine ⟨b, ?_, sorted⟩
    rw [books, findSome?_book reads different target, book, Option.some_or]
  · have none : (targets.findSome? fun a =>
        (net.loadTold s₀.world height a).book? pool) = none := by
      refine List.findSome?_eq_none_iff.mpr fun a target => ?_
      by_cases this : a.pool = pool
      · -- a target that is not refreshed was not told its ticks
        subst this
        cases told : net.ticksTold s₀.world a.pool with
        | error e => rw [Network.loadTold_of_error told, Load.book?]
        | ok ticks => exact absurd ((members _).mpr ⟨a, target, rfl, ticks, told⟩) out
      · exact (reads a target).book?_eq_none this
    rw [books, none, Option.none_or]

namespace Session

variable (s : Session σ) {targets : List OrderBookAddress}

/-- Pools that are refreshed come to be taken in, all of them. -/
theorem refreshed_refresh (tells : s.network.Tells view)
    (sound : ∀ a ∈ targets, (s.network.loadTold s.scene.world height a).unwinds = false) :
    ∃ r, (s.refresh height targets).2 = some r ∧
      Flight.Refreshed s.network height targets s.scene r (s.refresh height targets).1.scene := by
  have comes : Progress.Meets _ _ ((Flight.launch height targets).runUntil s.network [] .foreground
      (fun _ => false) s.scene) :=
    Flight.runUntil_comes (fun _ => false)
      (fun f s₁ goes _ => Flight.Refreshing.meets_step tells sound goes)
      (Flight.timely_launch height targets s.scene)
      (Flight.refreshing_launch s.network view height targets s.scene)
  rw [refresh]
  rcases run : (Flight.launch height targets).runUntil s.network [] .foreground (fun _ => false)
    s.scene with ⟨s', f | r⟩ <;> rw [run] at comes
  · exact absurd comes.2 Bool.false_ne_true
  · exact ⟨r, rfl, comes⟩

/-- Refreshing different pools is refreshing them in the world that it starts in, if reading tells a
view of the world, all orders have a side and no error says that the state cannot be. -/
theorem exists_refreshes (tells : s.network.Tells view) (height : Nat)
    (different : (targets.map (·.pool)).Nodup)
    (plain : ∀ a ∈ targets, ∀ e, s.network.ticksTold s.scene.world a.pool = .error e →
      e.severity ≠ .invalidState)
    (sided : ∀ a ∈ targets, ∀ ticks, s.network.ticksTold s.scene.world a.pool = .ok ticks →
      ∀ o ∈ s.network.ordersTold s.scene.world a.contract ticks, ∃ side, o.side = .ok side) :
    ∃ s' refreshed,
      s.refresh height targets = (s', some (.ok (.processed height refreshed []))) ∧
      s.network.Refreshes s.scene.world height targets s.scene.stores s'.scene.stores
        refreshed := by
  obtain ⟨r, ended, taken⟩ := s.refreshed_refresh tells
    fun a target => Network.unwinds_loadTold (plain a target) (sided a target)
  obtain ⟨refreshed, rfl, known⟩ := taken.refreshes different sided
  exact ⟨_, refreshed, Prod.ext rfl ended, known⟩

/-- When the view of the world is told by reading, different pools are refreshed just as the world
tells them, provided that all orders that are told have a side and that no error that is met instead
of ticks says that the state cannot be. The pools that are refreshed are those whose ticks are told,
each of them once and in ascending order. What is known of such a pool are the orders that are told
at its ticks, at the height that was asked for, and what is known of any other pool stays. -/
theorem refresh_reads (tells : s.network.Tells view) (height : Nat)
    (different : (targets.map (·.pool)).Nodup)
    (plain : ∀ a ∈ targets, ∀ e, s.network.ticksTold s.scene.world a.pool = .error e →
      e.severity ≠ .invalidState)
    (sided : ∀ a ∈ targets, ∀ ticks, s.network.ticksTold s.scene.world a.pool = .ok ticks →
      ∀ o ∈ s.network.ordersTold s.scene.world a.contract ticks, ∃ side, o.side = .ok side) :
    ∃ s' refreshed,
      s.refresh height targets = (s', some (.ok (.processed height refreshed []))) ∧
      refreshed.Pairwise (· < ·) ∧
      (∀ pool, pool ∈ refreshed ↔ ∃ a ∈ targets, a.pool = pool ∧
        ∃ ticks, s.network.ticksTold s.scene.world pool = .ok ticks) ∧
      (∀ a ∈ targets, ∀ ticks, s.network.ticksTold s.scene.world a.pool = .ok ticks →
        ∃ b, s'.scene.stores.pools.get? a.pool = some b ∧
          Chain.RestingBook.ofOrders a.pool height
            (s.network.ordersTold s.scene.world a.contract ticks) = .ok b) ∧
      ∀ pool ∉ refreshed,
        s'.scene.stores.pools.get? pool = s.scene.stores.pools.get? pool := by
  obtain ⟨s', refreshed, ended, known⟩ := s.exists_refreshes tells height different plain sided
  exact ⟨s', refreshed, ended, known.ascending, known.mem_iff, known.books, known.others⟩

/-! ### A chain that is told in part -/

/-- A network whose world counts the calls that were made. The ticks of one pool are not told, those
of another one not in time; of the orders, those at one tick are not told, and those at another one
only after a while. -/
def unevenNetwork : Network Nat where
  waits c _ :=
    match c with
    | .activeTicks 3 => [1500]
    | .restingOrders _ 9 => [250]
    | _ => []
  answer c calls :=
    (calls + 1,
      match c with
      | .activeTicks 2 => .error (.execution (.requestFailed "unreachable"))
      | .activeTicks _ => .ok [7, 8, 9]
      | .restingOrders _ 8 => .error (.execution (.requestFailed "unreachable"))
      | .restingOrders _ tick => .ok [.fresh tick 1 "bid" "maker" (.ofWord 5 0)]
      | _ => .error (.execution (.requestFailed "closed")))
  limitSecs := 1

/-- A session that knows the orders of one of the pools. -/
def unevenSession : Session Nat :=
  { idle unevenNetwork 0 with
    scene := ⟨(Stores.ofShelf .empty).putPool ⟨2, 41, [], []⟩, 0, 0, 0, 0⟩ }

theorem tells_unevenNetwork : unevenNetwork.Tells fun _ => () :=
  ⟨fun _ _ _ => rfl, fun _ _ _ => rfl, fun _ _ _ => rfl⟩

/-- The pools that are refreshed. -/
def unevenTargets : List OrderBookAddress := [⟨3, "late"⟩, ⟨1, "partial"⟩, ⟨2, "unreachable"⟩]

/-- An order that is told. -/
def unevenOrder (tick : Int) : Chain.Order := .fresh tick 1 "bid" "maker" (.ofWord 5 0)

/-- The pool whose ticks are told has the orders that are told of it, the best one first, and the
two others are as they were. -/
theorem refresh_reads_of_unevenNetwork : ∃ s' refreshed,
    unevenSession.refresh 42 unevenTargets = (s', some (.ok (.processed 42 refreshed []))) ∧
    refreshed.Pairwise (· < ·) ∧ 1 ∈ refreshed ∧ 2 ∉ refreshed ∧ 3 ∉ refreshed ∧
    s'.scene.stores.pools.get? 1 = some ⟨1, 42, [unevenOrder 9, unevenOrder 7], []⟩ ∧
    s'.scene.stores.pools.get? 2 = some ⟨2, 41, [], []⟩ ∧
    s'.scene.stores.pools.get? 3 = none := by
  have one : unevenNetwork.ticksTold 0 1 = .ok [7, 8, 9] := by decide
  have two : unevenNetwork.ticksTold 0 2 = .error (.execution (.requestFailed "unreachable")) := by
    decide
  have three : unevenNetwork.ticksTold 0 3 = .error (.execution (.timeout "active ticks" 1)) := by
    decide
  have orders :
      unevenNetwork.ordersTold 0 "partial" [7, 8, 9] = [unevenOrder 7, unevenOrder 9] := by decide
  have bids : [unevenOrder 7, unevenOrder 9].mergeSort Chain.RestingBook.bidBefore =
      [unevenOrder 9, unevenOrder 7] := by
    simp [List.mergeSort, List.MergeSort.Internal.splitInTwo, Chain.RestingBook.bidBefore,
      unevenOrder, Chain.Order.fresh]
  have plain : ∀ a ∈ unevenTargets, ∀ e,
      unevenNetwork.ticksTold 0 a.pool = .error e → e.severity ≠ .invalidState := by
    intro a target e told
    rcases List.mem_cons.mp target with rfl | target
    · obtain rfl := Except.error.inj (three.symm.trans told)
      decide
    · rcases List.mem_pair.mp target with rfl | rfl
      · cases one.symm.trans told
      · obtain rfl := Except.error.inj (two.symm.trans told)
        decide
  have sided : ∀ a ∈ unevenTargets, ∀ ticks, unevenNetwork.ticksTold 0 a.pool = .ok ticks →
      ∀ o ∈ unevenNetwork.ordersTold 0 a.contract ticks, ∃ side, o.side = .ok side := by
    intro a target ticks told o among
    rcases List.mem_cons.mp target with rfl | target
    · cases three.symm.trans told
    · rcases List.mem_pair.mp target with rfl | rfl
      · obtain rfl := Except.ok.inj (one.symm.trans told)
        rw [orders] at among
        rcases List.mem_pair.mp among with rfl | rfl <;> exact ⟨.bid, rfl⟩
      · cases two.symm.trans told
  obtain ⟨s', refreshed, ended, ascending, members, books, others⟩ :=
    unevenSession.refresh_reads tells_unevenNetwork 42 (by decide) plain sided
  have out {pool : Nat} {e : Error} (untold : unevenNetwork.ticksTold 0 pool = .error e) :
      pool ∉ refreshed := by
    intro among
    obtain ⟨-, -, -, ticks, told⟩ := (members pool).mp among
    cases untold.symm.trans told
  obtain ⟨b, stored, sorted⟩ := books ⟨1, "partial"⟩ (by decide) _ one
  have known : Chain.RestingBook.ofOrders 1 42 [unevenOrder 7, unevenOrder 9] = .ok ⟨1, 42,
      [unevenOrder 7, unevenOrder 9].mergeSort Chain.RestingBook.bidBefore,
      [].mergeSort Chain.RestingBook.askBefore⟩ := rfl
  rw [bids, List.mergeSort_nil, ← orders] at known
  obtain rfl := Except.ok.inj (sorted.symm.trans known)
  exact ⟨s', refreshed, ended, ascending, (members 1).mpr ⟨⟨1, "partial"⟩, by decide, rfl, _, one⟩,
    out two, out three, stored, others 2 (out two), others 3 (out three)⟩

end Session

end CrossBook.Engine
