import CrossBook.Proofs.Engine.Refreshes
import CrossBook.Proofs.Rehearsal.World

/-!
# What rehearsals tell of their pools

A rehearsal tells what the chain of its world holds. Where it does not, a request has failed or was
not answered in time, and no state is found that cannot be. So what a refresh of its pools comes to
is decided by what the chain holds and by the faults in the world, whatever was sent before.

## Main definitions

* `Rehearsal.World.LetsThrough` — no fault keeps a reading from its answer
* `Rehearsal.World.TellsTicks`, `World.ticksAt`, `World.ordersAt` — what can be read of a pool

## Main results

* `Rehearsal.told_of_letsThrough`, `Rehearsal.exists_told_eq_error` — what a reading comes to
* `Rehearsal.ticksTold_eq`, `Rehearsal.ordersTold_eq` — what is told of a pool
* `Rehearsal.refresh_rehearsed` — the pools that are refreshed, and what is known of all pools
-/

namespace CrossBook.Rehearsal

open Engine

namespace World

/-- A reading gets through: no fault makes up an error for it, and none delays it for longer than it
may take. -/
def LetsThrough (w : World) (limitSecs : Nat) (c : Call) : Prop :=
  (w.faultOf c).error = none ∧
    min (w.faultOf c).delay longestWait ≤ min (network limitSecs).limit longestWait

instance (w : World) (limitSecs : Nat) (c : Call) : Decidable (w.LetsThrough limitSecs c) :=
  inferInstanceAs (Decidable (_ ∧ _))

/-- The active ticks of a pool can be read. -/
def TellsTicks (w : World) (limitSecs pool : Nat) : Prop :=
  w.LetsThrough limitSecs (.activeTicks pool) ∧ ¬ w.chain.failsActiveTicks

/-- The active ticks of a pool that the chain holds. -/
def ticksAt (w : World) (pool : Nat) : List Int := (w.chain.ticks.get? pool).getD []

/-- The orders of a contract at a tick that the chain holds, when they can be read. -/
def ordersAt (w : World) (limitSecs : Nat) (contract : String) (tick : Int) :
    List CrossBook.Chain.Order :=
  if w.LetsThrough limitSecs (.restingOrders contract tick) ∧ tick ∉ w.chain.failingTicks then
    (w.chain.orders.filter fun o => o.1 = contract ∧ o.2.tick = tick).map (·.2)
  else []

end World

variable {limitSecs : Nat} {w : World} {c : Call}

/-! ### One reading -/

/-- All that a fault can make up for a reading is an error. -/
theorem Fault.result?_of_readsPool (f : Fault) (reads : c.readsPool) :
    f.result? c = f.error.map fun reason => .error (.execution (.requestFailed reason)) := by
  rw [result?]
  cases f.error with
  | some reason => rfl
  | none => cases c <;> first | rfl | cases reads

/-- A reading only waits for as long as its fault delays it. -/
theorem World.timeOf_waits (w : World) (reads : c.readsPool) :
    timeOf (World.waits c w) = min (w.faultOf c).delay longestWait := by
  have latency : w.latency c = 0 := by cases c <;> first | rfl | cases reads
  rw [World.waits]
  split_ifs <;> simp [timeOf, latency]

/-- A reading that gets through is told what the chain answers. -/
theorem told_of_letsThrough (reads : c.readsPool) (lets : w.LetsThrough limitSecs c) :
    (network limitSecs).told w c = (w.respond c).2 := by
  obtain ⟨free, time⟩ := lets
  rw [← w.timeOf_waits reads] at time
  rw [Network.told]
  refine (if_pos time).trans ?_
  change (World.answer c w).2 = _
  rw [World.answer, Fault.result?_of_readsPool _ reads, free]
  rfl

/-- A reading that does not get through may do so another time. -/
theorem exists_told_eq_error (reads : c.readsPool) (kept : ¬ w.LetsThrough limitSecs c) :
    ∃ e, (network limitSecs).told w c = .error e ∧ e.severity = .transient := by
  rw [Network.told]
  split_ifs with time
  · change ∃ e, (World.answer c w).2 = _ ∧ _
    rw [World.answer, Fault.result?_of_readsPool _ reads]
    cases fault : (w.faultOf c).error with
    | some reason => exact ⟨_, rfl, rfl⟩
    | none => exact absurd ⟨fault, (w.timeOf_waits reads).symm.trans_le time⟩ kept
  · exact ⟨_, rfl, rfl⟩

/-! ### One pool -/

/-- A rehearsal tells what its pools hold, whatever was sent before. -/
theorem tells_network (limitSecs : Nat) : (network limitSecs).Tells World.blank :=
  (impartial_network limitSecs).tells

theorem ticksTold_eq {pool : Nat} (tells : w.TellsTicks limitSecs pool) :
    (network limitSecs).ticksTold w pool = .ok (w.ticksAt pool) := by
  rw [Network.ticksTold, told_of_letsThrough rfl tells.1]
  simp [World.respond, World.ofChain, Chain.activeTicks, World.ticksAt, tells.2]

/-- Ticks of a rehearsal that cannot be read may be read another time. -/
theorem exists_ticksTold_eq_error {pool : Nat} (untold : ¬ w.TellsTicks limitSecs pool) :
    ∃ e, (network limitSecs).ticksTold w pool = .error e ∧ e.severity = .transient := by
  by_cases lets : w.LetsThrough limitSecs (.activeTicks pool)
  · have fails : w.chain.failsActiveTicks := not_not.mp fun succeeds => untold ⟨lets, succeeds⟩
    refine ⟨.execution (.requestFailed ("pool " ++ Text.writeNat pool ++ " unreachable")), ?_, rfl⟩
    rw [Network.ticksTold, told_of_letsThrough rfl lets]
    simp [World.respond, World.ofChain, Chain.activeTicks, Chain.refused, fails]
  · exact exists_told_eq_error rfl lets

theorem exists_ticksTold_iff {pool : Nat} :
    (∃ ticks, (network limitSecs).ticksTold w pool = .ok ticks) ↔ w.TellsTicks limitSecs pool := by
  constructor
  · rintro ⟨ticks, told⟩
    by_contra untold
    obtain ⟨e, failed, -⟩ := exists_ticksTold_eq_error untold
    cases told.symm.trans failed
  · exact fun tells => ⟨_, ticksTold_eq tells⟩

theorem severity_ticksTold {pool : Nat} {e : Error}
    (failed : (network limitSecs).ticksTold w pool = .error e) : e.severity = .transient := by
  have untold : ¬ w.TellsTicks limitSecs pool := by
    intro tells
    cases failed.symm.trans (ticksTold_eq tells)
  obtain ⟨e', failed', severity⟩ := exists_ticksTold_eq_error untold
  obtain rfl := Except.error.inj (failed.symm.trans failed')
  exact severity

/-- The orders that a rehearsal tells are those that its chain holds and that can be read. -/
theorem ordersTold_eq (limitSecs : Nat) (w : World) (contract : String) (ticks : List Int) :
    (network limitSecs).ordersTold w contract ticks =
      ticks.flatMap (w.ordersAt limitSecs contract) := by
  rw [Network.ordersTold]
  congr 1
  funext tick
  rw [World.ordersAt]
  by_cases lets : w.LetsThrough limitSecs (.restingOrders contract tick)
  · rw [told_of_letsThrough rfl lets]
    by_cases fails : tick ∈ w.chain.failingTicks
    · simp [World.respond, Chain.restingOrders, Chain.refused, fails]
    · simp [World.respond, Chain.restingOrders, fails, lets]
  · obtain ⟨e, failed, -⟩ := exists_told_eq_error rfl lets
    rw [failed, if_neg fun both => lets both.1]

theorem World.mem_orders_of_mem_ordersAt {contract : String} {tick : Int}
    {o : CrossBook.Chain.Order} (among : o ∈ w.ordersAt limitSecs contract tick) :
    (contract, o) ∈ w.chain.orders := by
  rw [World.ordersAt] at among
  split_ifs at among
  · obtain ⟨⟨contract', o'⟩, found, rfl⟩ := List.mem_map.mp among
    obtain ⟨held, here⟩ := List.mem_filter.mp found
    obtain ⟨same, -⟩ := of_decide_eq_true here
    exact same ▸ held
  · cases among

/-! ### Refreshes -/

/-- In a rehearsal whose orders all have a side, different pools are refreshed with what the chain
holds, whatever was sent to it before and whatever faults there are: a fault or a failing chain
keeps pools and orders from being read, but no block from going on. The pools that are refreshed are
those whose ticks can be read, each of them once and in ascending order. What is known of such a
pool are the orders at its ticks that can be read, at the height that was asked for, and what is
known of any other pool stays. -/
theorem refresh_rehearsed {s : Session World} {targets : List OrderBookAddress}
    (rehearsed : s.network = network limitSecs) (height : Nat)
    (different : (targets.map (·.pool)).Nodup)
    (sided : ∀ o ∈ s.scene.world.chain.orders, ∃ side, o.2.side = .ok side) :
    ∃ s' refreshed,
      s.refresh height targets = (s', some (.ok (.processed height refreshed []))) ∧
      refreshed.Pairwise (· < ·) ∧
      (∀ pool, pool ∈ refreshed ↔
        pool ∈ targets.map (·.pool) ∧ s.scene.world.TellsTicks limitSecs pool) ∧
      (∀ a ∈ targets, s.scene.world.TellsTicks limitSecs a.pool →
        ∃ b, s'.scene.stores.pools.get? a.pool = some b ∧
          CrossBook.Chain.RestingBook.ofOrders a.pool height ((s.scene.world.ticksAt a.pool).flatMap
            (s.scene.world.ordersAt limitSecs a.contract)) = .ok b) ∧
      ∀ pool ∉ refreshed,
        s'.scene.stores.pools.get? pool = s.scene.stores.pools.get? pool := by
  -- whatever is told is held by the chain, so it has a side
  have told : ∀ a ∈ targets, ∀ ticks, s.network.ticksTold s.scene.world a.pool = .ok ticks →
      ∀ o ∈ s.network.ordersTold s.scene.world a.contract ticks, ∃ side, o.side = .ok side := by
    intro a _ ticks _ o among
    rw [rehearsed, ordersTold_eq] at among
    obtain ⟨tick, -, held⟩ := List.mem_flatMap.mp among
    exact sided _ (World.mem_orders_of_mem_ordersAt held)
  have plain : ∀ a ∈ targets, ∀ e, s.network.ticksTold s.scene.world a.pool = .error e →
      e.severity ≠ .invalidState := by
    intro a _ e failed invalid
    rw [rehearsed] at failed
    cases invalid.symm.trans (severity_ticksTold failed)
  have view : s.network.Tells World.blank := rehearsed ▸ tells_network limitSecs
  obtain ⟨s', refreshed, ended, known⟩ := s.exists_refreshes view height different plain told
  rw [rehearsed] at known
  refine ⟨s', refreshed, ended, known.ascending, fun pool => ?_, fun a target tells => ?_,
    known.others⟩
  · rw [known.mem_iff, exists_ticksTold_iff, List.mem_map]
    constructor
    · rintro ⟨a, target, same, tells⟩
      exact ⟨⟨a, target, same⟩, tells⟩
    · rintro ⟨⟨a, target, same⟩, tells⟩
      exact ⟨a, target, same, tells⟩
  · rw [← ordersTold_eq]
    exact known.books a target _ (ticksTold_eq tells)

end CrossBook.Rehearsal
