import CrossBook.Proofs.Engine.Histories
import CrossBook.Proofs.Engine.Validity

/-!
# Blocks that unwind

A block unwinds for a state that cannot be only while it reads pools, when an order has a tag that
names no side. Its cycles never do: whatever else happens to a session, its stores are filled with
sorted orders alone.

`Engine.Trader.upholds_cycle` tells this of one cycle, in stores that are filled and beside whatever
fills them in no other way. Here both are shown to hold in every session whose pairs were listed, by
one step of a block, one move and then any history. `Engine.Session.unwinds_at_refresh` is the form
over whole histories of what is known of one cycle. It is a result of its own: nothing else is built
on it.

## Main definitions

* `Engine.Load.Sorted`, `Engine.Landing.Valid` — what reading a pool and trading a pair come to
* `Engine.Abort.AtRefresh` — an abort that says that the state cannot be tells of such an order
* `Engine.Session.Valid` — a session in which nothing else can be found

## Main results

* `Engine.Flight.Valid.step` — one step of a block
* `Engine.Session.Valid.happen` — one move
* `Engine.Session.unwinds_at_refresh` — any history
-/

namespace CrossBook

/-- If an abort says that the state cannot be, then an order that was read has a tag that names no
side. -/
def Abort.AtRefresh (a : Abort) : Prop := ∀ text, a = .invalidState text →
  ∃ pool tag, Side.ofTag? tag = none ∧
    a = Engine.invalidOrders pool (.domain (.unknownDirection tag))

namespace Engine

variable {σ : Type}

/-! ### Reading pools -/

/-- What reading a pool comes to: a call has failed, or the orders of the pool were sorted if they
can be. -/
inductive Load.Sorted : Load → Prop where
  | untold (pool : Nat) {e : Error} (plain : e.Plain) : Sorted ⟨pool, .error e⟩
  | told (pool height : Nat) (orders : List Chain.Order) :
      Sorted ⟨pool, restingOrders pool height orders⟩

theorem OrderBookAddress.upholds_load (a : OrderBookAddress) (height : Nat) :
    (a.load height).Upholds Stores.Filled Load.Sorted := by
  refine Program.upholds_call_iff.mpr ?_
  rintro (e | ticks) plain
  · exact .untold _ (plain e rfl)
  · exact Program.upholds_ask_iff.mpr fun results _ => .told _ _ _

/-- When pools are taken in, the stores stay filled. Only an order without a side is a state that
cannot be. -/
theorem Stores.Filled.settle_sorted {s : Stores} (h : s.Filled) (refreshed : List Nat)
    {loads : List Load} (sorted : ∀ l ∈ loads, l.Sorted) :
    (s.settle refreshed loads).1.Filled ∧
      ∀ a, (s.settle refreshed loads).2 = .error a → a.AtRefresh := by
  induction loads generalizing s refreshed with
  | nil => exact ⟨h, nofun⟩
  | cons l loads ih =>
    obtain ⟨first, others⟩ := List.forall_mem_cons.mp sorted
    rw [Stores.settle]
    cases first with
    | untold pool plain =>
      have passed := plain.severity_eq
      simp only [passed, reduceCtorEq, if_false]
      exact ih h refreshed others
    | told pool height orders =>
      cases read : restingOrders pool height orders with
      | ok b => exact ih (h.putPool read) _ others
      | error e =>
        obtain ⟨o, -, untold, rfl⟩ := restingOrders_eq_error read
        refine ⟨h, ?_⟩
        rintro a same text -
        exact ⟨pool, o.tag, untold, (Except.error.inj same).symm⟩

/-! ### Blocks -/

/-- The cycle of a pair has not ended by unwinding for a state that cannot be. -/
def Landing.Valid (l : Landing) : Prop := ∀ text, l.ending ≠ .error (.invalidState text)

theorem Trader.upholds_takeOff (t : Trader) (height : Nat) :
    (t.takeOff height).Upholds Stores.Filled Landing.Valid :=
  Program.upholds_map.mpr (t.upholds_cycle height)

namespace Flight

/-- The programs of a block read pools, or are cycles. -/
def Valid : Flight → Prop
  | .refreshing _ fleet _ => fleet.Upholds Stores.Filled Load.Sorted
  | .trading _ _ fleet _ => fleet.Upholds Stores.Filled Landing.Valid

theorem valid_launch (height : Nat) (targets : List OrderBookAddress) :
    (launch height targets).Valid :=
  Fleet.upholds_launch (List.forall_mem_map.mpr fun a _ => a.upholds_load height)

variable {net : Network σ} {s : Scene σ} {f : Flight}

/-- One step of a block keeps the stores filled. If it ends, it does not end for a state that cannot
be, but for an order without a side. -/
theorem Valid.step (traders : List Trader) (post : Post) (plain : net.Plain) (h : f.Valid)
    (filled : s.stores.Filled) :
    Progress.Meets (fun f s => f.Valid ∧ s.stores.Filled)
      (fun r s => s.stores.Filled ∧ ∀ a, r = .error a → a.AtRefresh)
      (f.step net traders post s) := by
  cases f with
  | refreshing height fleet refreshed =>
    have h : fleet.Upholds Stores.Filled Load.Sorted := h
    rw [Flight.step]
    cases proceeds : fleet.proceed? net post s with
    | some next => exact (h.proceed plain filled proceeds).symm
    | none =>
      obtain ⟨after, atRefresh⟩ := filled.settle_sorted refreshed h.finished
      dsimp only [collectLoads]
      rcases settled : s.stores.settle refreshed fleet.finished with ⟨stores, a | all⟩ <;>
        rw [settled] at after atRefresh
      · refine ⟨by rwa [Session.stores_drop], ?_⟩
        rintro a' ⟨⟩
        exact atRefresh a rfl
      · dsimp only
        split_ifs
        · exact ⟨Fleet.upholds_launch (List.forall_mem_map.mpr fun t _ => t.upholds_takeOff height),
            after⟩
        · exact ⟨h.collect, after⟩
  | trading height refreshed fleet outcomes =>
    have h : fleet.Upholds Stores.Filled Landing.Valid := h
    rw [Flight.step]
    cases proceeds : fleet.proceed? net post s with
    | some next => exact (h.proceed plain filled proceeds).symm
    | none =>
      dsimp only [collectOutcomes]
      cases told : outcomesOf fleet.finished with
      | error a =>
        refine ⟨by rwa [Session.stores_drop], ?_⟩
        rintro a' ⟨⟩ text rfl
        obtain ⟨l, among, unwinds⟩ := outcomesOf_eq_error told
        exact absurd unwinds (h.finished l among text)
      | ok more =>
        dsimp only
        split_ifs
        · refine ⟨filled, ?_⟩
          rintro a ⟨⟩
        · exact ⟨h.collect, filled⟩

end Flight

/-! ### Sessions -/

namespace Session

variable {s s₀ s₁ : Session σ} {log : List Occurrence}

/-- The stores of a session are filled, and so the programs of its blocks leave them. -/
structure Valid (s : Session σ) : Prop where
  plain : s.network.Plain
  filled : s.scene.stores.Filled
  flights : ∀ f ∈ s.flights, f.2.Valid

/-- One move. -/
theorem Valid.happen (h : s.Valid) (m : Move σ) : (s.happen m).1.Valid ∧
    ∀ a, .ended (.error a) ∈ (s.happen m).2 → a.AtRefresh := by
  cases m with
  | feed shelf => exact ⟨⟨h.plain, h.filled, h.flights⟩, by simp [Session.happen]⟩
  | alter f => exact ⟨⟨h.plain, h.filled, h.flights⟩, by simp [Session.happen]⟩
  | arrive e =>
    rw [Session.happen, arrive]
    dsimp only
    split_ifs
    · have launched : ∀ f ∈ [(s.guard.asked, Flight.launch e.height (s.targets e))], f.2.Valid :=
        List.forall_mem_singleton.mpr (Flight.valid_launch e.height _)
      exact ⟨⟨h.plain, h.filled, List.forall_mem_append.mpr ⟨h.flights, launched⟩⟩, by simp⟩
    · exact ⟨⟨h.plain, h.filled, h.flights⟩, by simp⟩
  | resume post permit =>
    rw [Session.happen, resumeOnce]
    cases found : s.flight? permit with
    | none => exact ⟨h, by simp⟩
    | some f =>
      obtain ⟨⟨_, _⟩, first, rfl⟩ := Option.map_eq_some_iff.mp found
      have others : ∀ f ∈ s.otherFlights permit, f.2.Valid :=
        fun f among => h.flights f (List.mem_of_mem_filter among)
      have meets := Flight.Valid.step s.traders post h.plain
        (h.flights _ (List.mem_of_find?_eq_some first)) h.filled
      dsimp only at meets ⊢
      rcases step : Flight.step s.network s.traders post _ s.scene with ⟨scene, f' | r⟩ <;>
        rw [step] at meets
      · obtain ⟨valid, filled⟩ := meets
        exact ⟨⟨h.plain, filled, List.forall_mem_cons.mpr ⟨valid, others⟩⟩, by simp [settle]⟩
      · obtain ⟨filled, atRefresh⟩ := meets
        refine ⟨⟨h.plain, filled, others⟩, fun a ended => atRefresh a ?_⟩
        simpa [settle, eq_comm] using ended

theorem Valid.history (h : s.Valid) (moves : List (Move σ)) : (s.history moves).1.Valid ∧
    ∀ a, .ended (.error a) ∈ (s.history moves).2 → a.AtRefresh := by
  induction moves using List.reverseRecOn with
  | nil => exact ⟨h, by simp⟩
  | append_singleton moves m ih =>
    obtain ⟨before, earlier⟩ := ih
    obtain ⟨after, now⟩ := before.happen m
    rw [history_concat]
    exact ⟨after, fun a ended => (List.mem_append.mp ended).elim (earlier a) (now a)⟩

theorem valid_list {settings : Settings} (plain : s₁.network.Plain)
    (listed : s₁.list settings = (s₀, .ok ())) : s₀.Valid := by
  obtain ⟨_, _, _, -, -, rfl⟩ := list_eq_ok_iff.mp listed
  exact ⟨plain, Stores.filled_ofShelf _, List.forall_mem_nil _⟩

/-- Over any history of a session whose pairs were listed and whose calls fail as calls do, all
stored orders were sorted. A block that unwinds for a state that cannot be has read an order whose
tag names no side. -/
theorem unwinds_at_refresh {settings : Settings} {moves : List (Move σ)}
    (plain : s₁.network.Plain) (listed : s₁.list settings = (s₀, .ok ()))
    (happened : s₀.history moves = (s, log)) :
    s.scene.stores.Filled ∧
    ∀ text, .ended (.error (.invalidState text)) ∈ log → ∃ pool tag, Side.ofTag? tag = none ∧
      .invalidState text = invalidOrders pool (.domain (.unknownDirection tag)) := by
  have history := (valid_list plain listed).history moves
  rw [happened] at history
  exact ⟨history.1.filled, fun text ended => history.2 _ ended text rfl⟩

end Session

end Engine

end CrossBook
