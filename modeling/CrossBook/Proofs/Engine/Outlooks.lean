import CrossBook.Proofs.Engine.Blocks
import CrossBook.Proofs.Engine.Solos
import CrossBook.Proofs.Engine.Twins

/-!
# Blocks by the courses of their parts

What becomes of a block is told by what its parts come to on their own: each pool when it is read,
and each cycle when the pools are in. The order in which they are listed makes no difference.

## Main definitions

* `Engine.Outlook` — what the parts of a block come to on their own
* `Engine.Outlook.report` — what they amount to

## Main results

* `Engine.Outlook.exists_outlook` — the parts of a block come to their ends
* `Engine.Outlook.report_eq_of_perm` — they amount to the same in any order
-/

namespace CrossBook.Engine

open Relation

variable {σ τ α : Type} {net : Network σ} {view : σ → τ} {height : Nat}

/-! ### Contracts of programs that run on their own -/

theorem Task.Comes.ensures {c : Contract α} {task : Task α} {s e : Scene σ} {a : α}
    (h : task.Comes net s a e) (keeps : task.Keeps c s.stores) : c.Ensures a e.stores := by
  induction h with
  | finished a s => exact keeps
  | @waiting w s e time a next later comes ih =>
    have keeps : w.Keeps c ({ s with now := time } : Scene σ).stores := keeps
    exact ih keeps.run.2

/-! ### Pools that are taken in -/

/-- The pool, if its orders were read. -/
def Load.refreshed? (l : Load) : Option Nat :=
  match l.result with
  | .ok _ => some l.pool
  | .error _ => none

namespace Stores

variable {s s' : Stores} {refreshed all : List Nat} {loads more : List Load}

theorem settle_append (more : List Load) (h : s.settle refreshed loads = (s', .ok all)) :
    s.settle refreshed (loads ++ more) = s'.settle all more := by
  induction loads generalizing s refreshed with
  | nil =>
    obtain ⟨rfl, same⟩ := Prod.mk.inj h
    obtain rfl := Except.ok.inj same
    rfl
  | cons l loads ih =>
    rw [settle] at h
    rw [List.cons_append, settle]
    cases result : l.result with
    | ok b =>
      simp only [result] at h
      exact ih h
    | error e =>
      simp only [result] at h
      dsimp only
      split_ifs at h ⊢
      · cases (Prod.mk.inj h).2
      · exact ih h

theorem refreshed_of_settle (h : s.settle refreshed loads = (s', .ok all)) :
    all = refreshed ++ loads.filterMap Load.refreshed? := by
  induction loads generalizing s refreshed with
  | nil => simpa using (Except.ok.inj (Prod.mk.inj h).2).symm
  | cons l loads ih =>
    rw [settle] at h
    cases result : l.result with
    | ok b =>
      simp only [result] at h
      rw [ih h, List.append_assoc, List.filterMap_cons_some (b := l.pool)
        (by rw [Load.refreshed?, result])]
      rfl
    | error e =>
      simp only [result] at h
      split_ifs at h
      · cases (Prod.mk.inj h).2
      · rw [ih h, List.filterMap_cons_none (by rw [Load.refreshed?, result])]

theorem exists_unwinds_of_settle {a : Abort} (h : s.settle refreshed loads = (s', .error a)) :
    ∃ l ∈ loads, l.unwinds := by
  induction loads generalizing s refreshed with
  | nil => cases (Prod.mk.inj h).2
  | cons l loads ih =>
    rw [settle] at h
    cases result : l.result with
    | ok b =>
      simp only [result] at h
      obtain ⟨l', among, unwinds⟩ := ih h
      exact ⟨l', List.mem_cons_of_mem _ among, unwinds⟩
    | error e =>
      simp only [result] at h
      split_ifs at h with invalid
      · exact ⟨l, List.mem_cons_self, by simp [Load.unwinds, result, invalid]⟩
      · obtain ⟨l', among, unwinds⟩ := ih h
        exact ⟨l', List.mem_cons_of_mem _ among, unwinds⟩

theorem not_unwinds_of_settle (h : s.settle refreshed loads = (s', .ok all)) {l : Load}
    (among : l ∈ loads) : l.unwinds = false := by
  have kept := List.takeWhile_eq_self_iff.mp (takeWhile_of_settle h) l among
  simpa using kept

theorem shelf_settle (s : Stores) (refreshed : List Nat) (loads : List Load) :
    (s.settle refreshed loads).1.shelf = s.shelf := by
  induction loads generalizing s refreshed with
  | nil => rfl
  | cons l loads ih =>
    rw [settle]
    split
    · exact ih _ _
    · split_ifs
      · rfl
      · exact ih _ _

end Stores

/-! ### Lists in any order -/

/-- What is sorted by an order that tells its members apart is sorted alike from any order. -/
theorem mergeSort_eq_of_perm {le : α → α → Bool} {l l' : List α}
    (trans : ∀ a b c, le a b = true → le b c = true → le a c = true)
    (total : ∀ a b, (le a b || le b a) = true)
    (antisymm : ∀ a ∈ l, ∀ b ∈ l, le a b = true → le b a = true → a = b) (h : l.Perm l') :
    l.mergeSort le = l'.mergeSort le := by
  refine List.Perm.eq_of_pairwise (fun a b among among' => ?_)
    (List.pairwise_mergeSort trans total l) (List.pairwise_mergeSort trans total l')
    ((List.mergeSort_perm l le).trans (h.trans (List.mergeSort_perm l' le).symm))
  exact antisymm a (List.mem_mergeSort.mp among) b (h.symm.subset (List.mem_mergeSort.mp among'))

/-- Where at most one member has a value, its order makes no difference. -/
theorem findSome?_eq_of_perm {β : Type} {f : α → Option β} {l l' : List α} (h : l.Perm l')
    (single : l.Pairwise fun a b => f a = none ∨ f b = none) :
    l.findSome? f = l'.findSome? f := by
  induction h with
  | nil => rfl
  | cons a _ ih => rw [List.findSome?_cons, List.findSome?_cons, ih (List.Pairwise.of_cons single)]
  | swap a b l =>
    have apart := List.rel_of_pairwise_cons single List.mem_cons_self
    simp only [List.findSome?_cons]
    rcases apart with none | none <;> rw [none]
  | trans p _ ih ih' =>
    exact (ih single).trans (ih' ((p.pairwise_iff fun apart => apart.symm).mp single))

/-! ### Pools that are taken in, in any order -/

section AnyOrder

variable {load : OrderBookAddress → Load} {targets : List OrderBookAddress} {loads : List Load}
  {a : OrderBookAddress} {pool : Nat}

theorem OrderBookAddress.Reads.book?_eq_none {l : Load} (h : a.Reads height l)
    (other : a.pool ≠ pool) : l.book? pool = none := by
  rw [Load.book?]
  cases result : l.result with
  | error e => rfl
  | ok b => simp only [(h.book_eq result).1, if_neg other]

/-- At most one of different pools has the orders of a pool. -/
theorem single_book (reads : ∀ a ∈ targets, a.Reads height (load a))
    (different : (targets.map (·.pool)).Nodup) (pool : Nat) :
    targets.Pairwise fun a b => (load a).book? pool = none ∨ (load b).book? pool = none := by
  refine (List.pairwise_map.mp different).imp_of_mem fun {a b} among among' other => ?_
  by_cases this : a.pool = pool
  · exact .inr ((reads b among').book?_eq_none (this ▸ Ne.symm other))
  · exact .inl ((reads a among).book?_eq_none this)

/-- What is known of a pool when different pools were taken in, in whatever order. -/
theorem Stores.get?_settle_of_perm (reads : ∀ a ∈ targets, a.Reads height (load a))
    (different : (targets.map (·.pool)).Nodup) (read : loads.Perm (targets.map load))
    (sound : ∀ l ∈ loads, l.unwinds = false) (s : Stores) (pool : Nat) :
    (s.settle [] loads).1.pools.get? pool =
      (targets.findSome? fun a => (load a).book? pool).or (s.pools.get? pool) := by
  have order : loads.reverse.Perm (targets.map load) := loads.reverse_perm.trans read
  have single : loads.reverse.Pairwise fun l l' => l.book? pool = none ∨ l'.book? pool = none :=
    (order.pairwise_iff fun apart => apart.symm).mpr
      (List.pairwise_map.mpr (single_book reads different pool))
  rw [s.get?_settle, List.takeWhile_eq_self_iff.mpr (by simpa using sound), lastRead,
    readings_map_read, findSome?_eq_of_perm order single, List.findSome?_map]
  rfl

end AnyOrder

/-! ### What the parts of a block come to -/

/-- The outcome of a cycle without the numbers of its references, unless it unwinds. -/
def Landing.told? (l : Landing) : Option PairOutcome :=
  match l.ending with
  | .ok o => some (PairOutcome.unnumbered ⟨l.pair, o⟩)
  | .error _ => none

/-- A report without the numbers of its references. -/
def Report.unnumbered : Report → Report
  | .busy height => .busy height
  | .processed height refreshed outcomes =>
    .processed height refreshed (outcomes.map PairOutcome.unnumbered)

/-- A scene at the beginning of time. -/
def Scene.first (stores : Stores) (world : σ) : Scene σ := ⟨stores, world, 0, 0, 0⟩

/-- What the parts of a block at a height come to on their own in some world: each pool when it is
read, and each cycle when the pools are in and the stores are as given. -/
structure Outlook (net : Network σ) (height : Nat) where
  world : σ
  stores : Stores
  load : OrderBookAddress → Load
  loaded : OrderBookAddress → Scene σ
  landing : Trader → Landing
  landed : Trader → Scene σ
  loads : ∀ a : OrderBookAddress,
    (advance net (a.load height) (.first (.ofShelf .empty) world)).2.Comes net
      (advance net (a.load height) (.first (.ofShelf .empty) world)).1 (load a) (loaded a)
  landings : ∀ t : Trader, (advance net (t.takeOff height) (.first stores world)).2.Comes net
    (advance net (t.takeOff height) (.first stores world)).1 (landing t) (landed t)

namespace Outlook

/-- The parts of a block come to their ends, whatever is known when the pools are in. -/
theorem exists_outlook (net : Network σ) (height : Nat) (world : σ)
    (base : (OrderBookAddress → Load) → Stores) :
    ∃ o : Outlook net height, o.world = world ∧ o.stores = base o.load := by
  -- what the pools hold when they are in is known first, and the cycles begin with it
  choose load loaded loads using fun a : OrderBookAddress =>
    (a.load height).exists_comes net (.first (.ofShelf .empty) world)
  choose landing landed landings using fun t : Trader =>
    (t.takeOff height).exists_comes net (.first (base load) world)
  exact ⟨⟨world, base load, load, loaded, landing, landed, loads, landings⟩, rfl, rfl⟩

variable (o : Outlook net height)

theorem reads (a : OrderBookAddress) : a.Reads height (o.load a) :=
  (o.loads a).ensures (Program.Keeps.advance (a.keeps_load height _)).2

theorem pair_landing (t : Trader) : (o.landing t).pair = t.name :=
  ((o.landings t).ensures (Program.Keeps.advance (t.keeps_takeOff height _)).2).1

section Parts

variable (targets : List OrderBookAddress) (traders : List Trader)

/-- No part of the block unwinds. -/
def Sound : Prop :=
  (∀ a ∈ targets, (o.load a).unwinds = false) ∧
    ∀ t ∈ traders, ∃ outcome, (o.landing t).ending = .ok outcome

/-- Some part of the block takes its time. -/
def Lasts : Prop :=
  (∃ a ∈ targets, 0 < (o.loaded a).now) ∨ ∃ t ∈ traders, 0 < (o.landed t).now

/-- The pools whose orders are replaced. -/
def refreshed : List Nat :=
  ((targets.map o.load).filterMap Load.refreshed?).mergeSort fun a b => a ≤ b

/-- The report of the block, without the numbers of references. -/
def report : Report :=
  .processed height (o.refreshed targets)
    (sortOutcomes (traders.filterMap fun t => (o.landing t).told?))

end Parts

/-! ### The order of the parts makes no difference -/

section Orders

variable {o} {targets targets' : List OrderBookAddress} {traders traders' : List Trader}

theorem sort_eq_of_perm {pools pools' : List Nat} (h : pools.Perm pools') :
    pools.mergeSort (fun a b => a ≤ b) = pools'.mergeSort fun a b => a ≤ b :=
  mergeSort_eq_of_perm (by simpa using fun a b c => Nat.le_trans) (by simpa using Nat.le_total)
    (fun _ _ _ _ le le' => Nat.le_antisymm (of_decide_eq_true le) (of_decide_eq_true le')) h

theorem sortOutcomes_eq_of_perm {outcomes outcomes' : List PairOutcome}
    (h : outcomes.Perm outcomes') (different : (outcomes.map (·.pair)).Nodup) :
    sortOutcomes outcomes = sortOutcomes outcomes' := by
  refine mergeSort_eq_of_perm (fun a b c before after => ?_) (fun a b => ?_)
    (fun a among b among' before after => ?_) h
  · exact decide_eq_true (String.le_trans (of_decide_eq_true before) (of_decide_eq_true after))
  · rw [Bool.or_eq_true, decide_eq_true_eq, decide_eq_true_eq]
    exact String.le_total a.pair b.pair
  · exact List.inj_on_of_nodup_map different among among'
      (String.le_antisymm (of_decide_eq_true before) (of_decide_eq_true after))

/-- Outcomes of different traders are of different pairs. -/
theorem nodup_told (different : (traders.map Trader.name).Nodup) :
    ((traders.filterMap fun t => (o.landing t).told?).map (·.pair)).Nodup := by
  refine different.sublist ?_
  induction traders with
  | nil => exact List.Sublist.slnil
  | cons t rest ih =>
    have rest := ih different.of_cons
    cases ending : (o.landing t).ending with
    | error a =>
      rw [List.filterMap_cons_none (by rw [Landing.told?, ending]), List.map_cons]
      exact rest.cons _
    | ok outcome =>
      rw [List.filterMap_cons_some (by rw [Landing.told?, ending]), List.map_cons, List.map_cons,
        PairOutcome.unnumbered, o.pair_landing]
      exact rest.cons_cons _

theorem report_eq_of_perm (pools : targets.Perm targets') (pairs : traders.Perm traders')
    (different : (traders.map Trader.name).Nodup) :
    o.report targets traders = o.report targets' traders' := by
  rw [report, report, refreshed, refreshed, sort_eq_of_perm ((pools.map o.load).filterMap _),
    sortOutcomes_eq_of_perm (pairs.filterMap _) (nodup_told different)]

theorem Sound.of_perm (pools : targets.Perm targets') (pairs : traders.Perm traders')
    (h : o.Sound targets traders) : o.Sound targets' traders' :=
  ⟨fun a among => h.1 a (pools.symm.subset among), fun t among => h.2 t (pairs.symm.subset among)⟩

theorem Lasts.of_perm (pools : targets.Perm targets') (pairs : traders.Perm traders')
    (h : o.Lasts targets traders) : o.Lasts targets' traders' :=
  h.imp (fun ⟨a, among, later⟩ => ⟨a, pools.subset among, later⟩)
    fun ⟨t, among, later⟩ => ⟨t, pairs.subset among, later⟩

end Orders

end Outlook

end CrossBook.Engine
