import CrossBook.Proofs.Engine.Jobs
import CrossBook.Proofs.Engine.Moves

/-!
# What a log tells

A log tells which orders of a pool were read last, and so which pools a block has to read when it
is admitted.

## Main definitions

* `Engine.lastRead`, `Engine.lastEnd` — the orders of a pool that were read last, and the end of the
  last block
* `Engine.toRead`, `Engine.HasRead` — the pools a block has to read, and those it has read

## Main results

* `Engine.Stores.get?_settle` — the orders of a pool after some pools were taken in
-/

namespace CrossBook.Engine

/-- The pool that was read, if one was. -/
def Occurrence.load? : Occurrence → Option Load
  | .read l => some l
  | _ => none

/-- The pools that were read, in their order. -/
def readings (log : List Occurrence) : List Load := log.filterMap Occurrence.load?

/-- The orders of a pool, if they were read. -/
def Load.book? (pool : Nat) (l : Load) : Option Chain.RestingBook :=
  match l.result with
  | .ok b => if b.pool = pool then some b else none
  | .error _ => none

/-- The orders of a pool that were read last. -/
def lastRead (log : List Occurrence) (pool : Nat) : Option Chain.RestingBook :=
  (readings log).reverse.findSome? (Load.book? pool)

/-- The pools that a block has to read after some log: those of its traders which it touched, and
those whose orders were never read. -/
def toRead (traders : List Trader) (log : List Occurrence) (e : BlockEvent) :
    List OrderBookAddress :=
  Session.distinctPools <| (traders.map fun t => t.listing.address).filter fun a =>
    a.pool ∈ e.pools || (lastRead log a.pool).isNone

/-- How the last block of a log that ended did so, if one did. -/
def lastEnd (log : List Occurrence) : Option (Except Abort Report) :=
  log.reverse.findSome? fun
    | .ended r => some r
    | _ => none

/-- No block of a log has ended yet, or the last one did not unwind. -/
def Settled (log : List Occurrence) : Prop := ∀ a, lastEnd log ≠ some (.error a)

/-- A log ends with an admitted block and what was seen since. -/
structure Since (log before : List Occurrence) (e : BlockEvent) (after : List Occurrence) :
    Prop where
  log_eq : log = before ++ .admitted e :: after
  last : ∀ e', .admitted e' ∉ after

/-- Of the pools a block has to read some are left, and the others were read at its height. -/
def HasRead (traders : List Trader) (before : List Occurrence) (e : BlockEvent)
    (after : List Occurrence) (left : List OrderBookAddress) : Prop :=
  ∃ done : List (OrderBookAddress × Load), done.map (·.2) = readings after ∧
    (∀ m ∈ done, m.1.Reads e.height m.2) ∧
    (left ++ done.map (·.1)).Perm (toRead traders before e)

section Logs

variable {log before after more : List Occurrence} {e e' : BlockEvent} {traders : List Trader}
  {left : List OrderBookAddress}

@[simp] theorem readings_append : readings (log ++ more) = readings log ++ readings more :=
  List.filterMap_append

@[simp] theorem readings_map_read (loads : List Load) :
    readings (loads.map .read) = loads := by
  rw [readings, List.filterMap_map]
  exact List.filterMap_some

theorem lastRead_append (pool : Nat) :
    lastRead (log ++ more) pool = (lastRead more pool).or (lastRead log pool) := by
  rw [lastRead, readings_append, List.reverse_append, List.findSome?_append]
  rfl

theorem lastRead_of_readings_eq_nil (none : readings more = []) (pool : Nat) :
    lastRead (log ++ more) pool = lastRead log pool := by
  rw [lastRead_append, lastRead, none]
  rfl

theorem Since.unique {before' after' : List Occurrence} (h : Since log before e after)
    (h' : Since log before' e' after') : before = before' ∧ e = e' ∧ after = after' := by
  have same := h.log_eq.symm.trans h'.log_eq
  rcases List.append_eq_append_iff.mp same with ⟨_ | ⟨o, between⟩, eq, eq'⟩ | ⟨_ | ⟨o, between⟩, eq, eq'⟩
  · obtain ⟨⟨⟩, rfl⟩ := List.cons.inj eq'
    exact ⟨by simpa using eq.symm, rfl, rfl⟩
  · obtain ⟨-, rfl⟩ := List.cons.inj eq'
    exact absurd (List.mem_append_right _ List.mem_cons_self) (h.last e')
  · obtain ⟨⟨⟩, rfl⟩ := List.cons.inj eq'
    exact ⟨by simpa using eq, rfl, rfl⟩
  · obtain ⟨-, rfl⟩ := List.cons.inj eq'
    exact absurd (List.mem_append_right _ List.mem_cons_self) (h'.last e)

theorem Since.append (h : Since log before e after) (none : ∀ e', .admitted e' ∉ more) :
    Since (log ++ more) before e (after ++ more) where
  log_eq := by rw [h.log_eq, List.append_assoc, List.cons_append]
  last e' among := (List.mem_append.mp among).elim (h.last e') (none e')

/-- What is seen since the last block was admitted ends with what is seen last. -/
theorem Since.of_append (h : Since (log ++ more) before e after)
    (none : ∀ e', .admitted e' ∉ more) :
    ∃ after', after = after' ++ more ∧ Since log before e after' := by
  rcases List.append_eq_append_iff.mp h.log_eq with ⟨between, eq, eq'⟩ | ⟨between, eq, eq'⟩
  · refine absurd ?_ (none e)
    rw [eq']
    exact List.mem_append_right _ List.mem_cons_self
  · cases between with
    | nil =>
      refine absurd ?_ (none e)
      rw [← (show _ = more from eq')]
      exact List.mem_cons_self
    | cons o after' =>
      obtain ⟨rfl, rfl⟩ := List.cons.inj eq'
      exact ⟨after', rfl, eq, fun e' among => h.last e' (List.mem_append_left _ among)⟩

theorem since_admitted : Since (log ++ [.admitted e]) before e' after ↔
    before = log ∧ e' = e ∧ after = [] := by
  constructor
  · intro h
    have now : Since (log ++ [.admitted e]) log e [] := ⟨rfl, fun _ => List.not_mem_nil⟩
    exact h.unique now
  · rintro ⟨rfl, rfl, rfl⟩
    exact ⟨rfl, fun _ => List.not_mem_nil⟩

/-- Some of the pools that were left have been read, and are taken in up to some point. -/
theorem HasRead.take {still : List OrderBookAddress} {ended : List (OrderBookAddress × Load)}
    {taken : List Load} (h : HasRead traders before e after left)
    (perm : (still ++ ended.map (·.1)).Perm left) (reads : ∀ m ∈ ended, m.1.Reads e.height m.2)
    (first : taken <+: ended.map (·.2)) :
    ∃ left', HasRead traders before e (after ++ taken.map .read) left' ∧
      (taken = ended.map (·.2) → left' = still) := by
  obtain ⟨done, results, done_reads, all⟩ := h
  obtain ⟨rest, split⟩ := first
  obtain ⟨now, later, rfl, rfl, rfl⟩ := List.map_eq_append_iff.mp split.symm
  refine ⟨still ++ later.map (·.1), ⟨done ++ now, ?_, ?_, ?_⟩, fun complete => ?_⟩
  · rw [List.map_append, results, readings_append, readings_map_read]
  · intro m among
    rcases List.mem_append.mp among with before | now
    · exact done_reads m before
    · exact reads m (List.mem_append_left _ now)
  · refine List.Perm.trans ?_ ((perm.append_right _).trans all)
    simp only [List.map_append, List.append_assoc]
    refine List.Perm.append_left _ ?_
    rw [← List.append_assoc]
    exact List.perm_append_comm
  · have none : later = [] := by simpa using complete
    rw [none, List.map_nil, List.append_nil]

theorem HasRead.append (h : HasRead traders before e after left) (none : readings more = []) :
    HasRead traders before e (after ++ more) left := by
  rwa [HasRead, readings_append, none, List.append_nil]

theorem lastEnd_append_of_silent (silent : ∀ r, .ended r ∉ more) :
    lastEnd (log ++ more) = lastEnd log := by
  rw [lastEnd, List.reverse_append, List.findSome?_append,
    List.findSome?_eq_none_iff.mpr fun o among => ?_]
  · rfl
  · cases o with
    | ended r => exact absurd (List.mem_reverse.mp among) (silent r)
    | _ => rfl

theorem lastEnd_concat (log : List Occurrence) (r : Except Abort Report) :
    lastEnd (log ++ [.ended r]) = some r := by
  rw [lastEnd, List.reverse_append]
  rfl

end Logs

/-! ### Taking in pools -/

namespace Stores

variable (s : Stores) (refreshed : List Nat) (loads : List Load)

theorem get?_settle (pool : Nat) : (s.settle refreshed loads).1.pools.get? pool =
    (lastRead ((loads.takeWhile fun l => !l.unwinds).map .read) pool).or (s.pools.get? pool) := by
  rw [lastRead, readings_map_read]
  induction loads generalizing s refreshed with
  | nil => rfl
  | cons l loads ih =>
    rw [settle]
    cases result : l.result with
    | ok b =>
      have first : (s.putPool b).pools.get? pool = (l.book? pool).or (s.pools.get? pool) := by
        by_cases this : b.pool = pool
        · subst this
          simp [Load.book?, result, putPool]
        · simpa [Load.book?, result, putPool, this] using
            Table.get?_insert_of_ne _ (Ne.symm this) _
      rw [List.takeWhile_cons_of_pos (by simp [Load.unwinds, result]), List.reverse_cons,
        List.findSome?_append, Option.or_assoc, ih, first]
      simp
    | error e =>
      dsimp only
      split_ifs with unwinds
      · rw [List.takeWhile_cons_of_neg (by simp [Load.unwinds, result, unwinds])]
        rfl
      · rw [List.takeWhile_cons_of_pos (by simp [Load.unwinds, result, unwinds]),
          List.reverse_cons, List.findSome?_append, ih]
        simp [Load.book?, result]

theorem ledger_settle (number : Nat) :
    (s.settle refreshed loads).1.ledger number = s.ledger number := by
  induction loads generalizing s refreshed with
  | nil => rfl
  | cons l loads ih =>
    rw [settle]
    split
    · exact ih _ _
    · split_ifs
      · rfl
      · exact ih _ _

variable {s refreshed loads} in
/-- All pools are taken in, unless one unwinds. -/
theorem takeWhile_of_settle {stores : Stores} {all : List Nat}
    (h : s.settle refreshed loads = (stores, .ok all)) :
    (loads.takeWhile fun l => !l.unwinds) = loads := by
  induction loads generalizing s refreshed with
  | nil => rfl
  | cons l loads ih =>
    rw [settle] at h
    cases result : l.result with
    | ok b =>
      simp only [result] at h
      rw [List.takeWhile_cons_of_pos (by simp [Load.unwinds, result]), ih h]
    | error e =>
      simp only [result] at h
      split_ifs at h with unwinds
      · cases h
      · rw [List.takeWhile_cons_of_pos (by simp [Load.unwinds, result, unwinds]), ih h]

end Stores

theorem outcomesOf_cons_eq_ok {l : Landing} {rest : List Landing} {outcomes : List PairOutcome} :
    outcomesOf (l :: rest) = .ok outcomes ↔
      ∃ o others, l.ending = .ok o ∧ outcomesOf rest = .ok others ∧
        outcomes = ⟨l.pair, o⟩ :: others := by
  rw [outcomesOf]
  cases ending : l.ending with
  | error a => simp
  | ok o => cases told : outcomesOf rest <;> simp [Except.map, eq_comm]

theorem outcomesOf_eq_ok {landings : List Landing} {outcomes : List PairOutcome}
    (h : outcomesOf landings = .ok outcomes) : ∀ l ∈ landings, ∃ o, l.ending = .ok o := by
  induction landings generalizing outcomes with
  | nil => simp
  | cons l rest ih =>
    obtain ⟨o, others, ending, told, -⟩ := outcomesOf_cons_eq_ok.mp h
    exact List.forall_mem_cons.mpr ⟨⟨o, ending⟩, ih told⟩

theorem outcomesOf_eq_error {landings : List Landing} {a : Abort}
    (h : outcomesOf landings = .error a) : ∃ l ∈ landings, l.ending = .error a := by
  induction landings with
  | nil => cases h
  | cons l rest ih =>
    rw [outcomesOf] at h
    cases ending : l.ending with
    | error b =>
      simp only [ending] at h
      obtain rfl := Except.error.inj h
      exact ⟨l, List.mem_cons_self, ending⟩
    | ok o =>
      simp only [ending] at h
      cases told : outcomesOf rest with
      | ok outcomes => simp [told, Except.map] at h
      | error b =>
        rw [told] at h
        obtain rfl := Except.error.inj h
        obtain ⟨l', among, unwinds⟩ := ih told
        exact ⟨l', List.mem_cons_of_mem _ among, unwinds⟩

end CrossBook.Engine
