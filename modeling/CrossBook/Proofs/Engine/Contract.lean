import CrossBook.Engine.Flight
import CrossBook.Proofs.Engine.Runs
import Mathlib.Logic.Relation

/-!
# Programs side by side

Programs that run side by side share the stores. Each of them keeps a contract: it relies on what
the others leave alone while it waits, guarantees what it leaves alone whenever it changes
something, and ensures something of the stores when it ends. Where what each program guarantees is
what all others rely on, every program of a fleet keeps its contract, in whatever order their turns
come and however long their calls take.

## Main definitions

* `Engine.Contract` — what is relied on, guaranteed and ensured
* `Engine.Program.Keeps` — a program keeps a contract
* `Engine.Program.Changes` — all changes a program makes are of some kind
* `Engine.Fleet.Serves` — every job of some is at work in a fleet or has come to its end there

## Main results

* `Engine.Program.keeps_of_runs` — a contract is kept when all runs end as it ensures
* `Engine.Fleet.Serves.proceed` — a fleet goes on serving its jobs
-/

namespace CrossBook.Engine

open Relation

variable {σ α β ι : Type}

/-- What a program relies on while it waits, what it guarantees whenever it changes the stores, and
what it ensures when it ends. What is ensured lasts as long as what is relied on. -/
structure Contract (α : Type) where
  Relies : Stores → Stores → Prop
  Guarantees : Stores → Stores → Prop
  Ensures : α → Stores → Prop
  relies_refl : ∀ s, Relies s s
  relies_trans : ∀ {s s' s''}, Relies s s' → Relies s' s'' → Relies s s''
  guarantees_refl : ∀ s, Guarantees s s
  guarantees_trans : ∀ {s s' s''}, Guarantees s s' → Guarantees s' s'' → Guarantees s s''
  lasts : ∀ {a s s'}, Ensures a s → Relies s s' → Ensures a s'

/-- A program that goes on from some stores keeps a contract, whatever it is answered. -/
def Program.Keeps (c : Contract α) : {n : Nat} → Program α n → Stores → Prop
  | _, .done a, s => c.Ensures a s
  | _, .look k, s => (k s).Keeps c s
  | _, .change f next, s => c.Guarantees s (f s) ∧ next.Keeps c (f s)
  | _, .ask _ _ k, s => ∀ answer s', c.Relies s s' → (k answer).Keeps c s'

/-- A program that waits keeps a contract. -/
def Waiting.Keeps (c : Contract α) (w : Waiting α) (s : Stores) : Prop :=
  ∀ answer s', c.Relies s s' → (w.resume answer).Keeps c s'

/-- One thing holds of a program that waits, and another one is ensured by one that has ended. -/
def Task.Meets (Holds : Waiting α → Stores → Prop) (Ensures : α → Stores → Prop) :
    Task α → Stores → Prop
  | .waiting w, s => Holds w s
  | .finished a, s => Ensures a s

/-- A program that waits or has ended keeps a contract. -/
def Task.Keeps (c : Contract α) : Task α → Stores → Prop := Task.Meets (Waiting.Keeps c) c.Ensures

/-- All changes that a program may make are of some kind. -/
def Program.Changes (Kind : Stores → Stores → Prop) : {n : Nat} → Program α n → Prop
  | _, .done _ => True
  | _, .look k => ∀ s, (k s).Changes Kind
  | _, .change f next => (∀ s, Kind s (f s)) ∧ next.Changes Kind
  | _, .ask _ _ k => ∀ answer, (k answer).Changes Kind

namespace Program

variable {Kind : Stores → Stores → Prop} {n : Nat}

theorem changes_done (a : α) : (.done a : Program α n).Changes Kind := trivial

theorem changes_look_iff {k : Stores → Program α n} :
    (Program.look k).Changes Kind ↔ ∀ s, (k s).Changes Kind := Iff.rfl

theorem changes_change_iff {f : Stores → Stores} {next : Program α n} :
    (Program.change f next).Changes Kind ↔ (∀ s, Kind s (f s)) ∧ next.Changes Kind := Iff.rfl

theorem changes_ask_iff {calls : List Call} {joining : Joining}
    {k : Joined joining calls → Program α n} :
    (Program.ask calls joining k).Changes Kind ↔ ∀ answer, (k answer).Changes Kind := Iff.rfl

theorem changes_call_iff {c : Call} {k : c.Result → Program α n} :
    (Program.call c k).Changes Kind ↔ ∀ r, (k r).Changes Kind := by
  rw [call, changes_ask_iff]
  constructor
  · exact fun changes r => changes (.cons r .nil)
  · rintro changes (_ | ⟨r, _ | _⟩)
    exact changes r

end Program

/-! ### Calls leave the stores alone -/

namespace Network

variable (net : Network σ)

@[simp] theorem stores_begin (c : Call) (s : Scene σ) : (net.begin c s).1.stores = s.stores := by
  unfold begin
  split
  · rfl
  · split
    · rfl
    · split_ifs <;> rfl

@[simp] theorem stores_look {c : Call} (slot : Slot c) (s : Scene σ) :
    (net.look c slot s).1.stores = s.stores := by
  cases slot with
  | answered r => rfl
  | waiting wait later deadline =>
    unfold look
    dsimp only
    split_ifs
    · cases later <;> rfl
    · rfl

@[simp] theorem stores_beginAll (calls : List Call) (s : Scene σ) :
    (net.beginAll calls s).1.stores = s.stores := by
  induction calls generalizing s with
  | nil => rfl
  | cons c calls ih => rw [beginAll, ih, stores_begin]

@[simp] theorem stores_lookAll {calls : List Call} (slots : Answers Slot calls) (s : Scene σ) :
    (net.lookAll slots s).1.stores = s.stores := by
  induction slots generalizing s with
  | nil => rfl
  | cons slot slots ih => rw [lookAll, ih, stores_look]

end Network

/-! ### One program -/

section Program

variable {c : Contract α} {net : Network σ} {n : Nat} {p : Program α n} {w : Waiting α}
  {s : Scene σ} {s₁ s₂ : Stores}

theorem Waiting.Keeps.lasts (h : w.Keeps c s₁) (relied : c.Relies s₁ s₂) : w.Keeps c s₂ :=
  fun answer _ relied' => h answer _ (c.relies_trans relied relied')

/-- A program that is advanced guarantees what it has to, and goes on to keep its contract. -/
theorem Program.Keeps.advance (h : p.Keeps c s.stores) :
    c.Guarantees s.stores (advance net p s).1.stores ∧
      (Engine.advance net p s).2.Keeps c (Engine.advance net p s).1.stores := by
  induction p generalizing s with
  | done a => exact ⟨c.guarantees_refl _, h⟩
  | look k ih => exact ih s.stores h
  | change f next ih =>
    obtain ⟨guaranteed, keeps⟩ := ih (s := { s with stores := f s.stores }) h.2
    exact ⟨c.guarantees_trans h.1 guaranteed, keeps⟩
  | ask calls joining k ih =>
    have same := net.stores_beginAll calls s
    rw [Engine.advance]
    cases joined : joined? 0 (net.beginAll calls s).2 joining with
    | some answer =>
      have keeps : (k answer).Keeps c (net.beginAll calls s).1.stores := by
        rw [same]
        exact h answer _ (c.relies_refl _)
      simpa only [joined, same] using ih answer keeps
    | none =>
      simp only [joined]
      refine ⟨by rw [same]; exact c.guarantees_refl _, ?_⟩
      rw [same]
      exact h

/-- A program that looks at what it waits for guarantees what it has to, and goes on to keep its
contract. -/
theorem Waiting.Keeps.run (h : w.Keeps c s.stores) :
    c.Guarantees s.stores (w.run net s).1.stores ∧
      (w.run net s).2.Keeps c (w.run net s).1.stores := by
  have same := net.stores_lookAll w.slots s
  rw [Waiting.run]
  cases joined : joined? w.looks (net.lookAll w.slots s).2 w.joining with
  | some answer =>
    have keeps : (w.resume answer).Keeps c (net.lookAll w.slots s).1.stores := by
      rw [same]
      exact h answer _ (c.relies_refl _)
    have ran : _ ∧ (Engine.advance net (w.resume answer) (net.lookAll w.slots s).1).2.Keeps c _ :=
      keeps.advance
    simpa only [joined, same] using ran
  | none =>
    simp only [joined]
    refine ⟨by rw [same]; exact c.guarantees_refl _, ?_⟩
    rw [same]
    exact h

/-- A contract is kept by a program whose changes are guaranteed and whose runs all end as the
contract ensures. -/
theorem Program.keeps_of_runs (changes : p.Changes c.Guarantees)
    (ends : ∀ trace a s₂, p.Runs ⟨c.Relies, fun _ => False⟩ s₁ trace a s₂ → c.Ensures a s₂) :
    p.Keeps c s₁ := by
  induction p generalizing s₁ with
  | done a => exact ends [] a s₁ (.done a s₁)
  | look k ih => exact ih s₁ (changes s₁) fun trace a s₂ run => ends trace a s₂ (.look run)
  | change f next ih =>
    exact ⟨changes.1 s₁, ih changes.2 fun trace a s₂ run => ends trace a s₂ (.change run)⟩
  | ask calls joining k ih =>
    intro answer s' relied
    refine ih answer (changes answer) fun trace a s₂ run => ?_
    -- whether the calls reach anybody makes no difference to the run
    exact ends _ a s₂ (.ask ⟨calls, joining, answer, []⟩
      ⟨fun d => Nat.zero_le _, fun d _ prompt => prompt.elim⟩ relied run)

/-- The contract of a program whose value is changed in the end. -/
def Contract.before (f : α → β) (c : Contract β) : Contract α :=
  { c with Ensures := fun a => c.Ensures (f a), lasts := c.lasts }

theorem Program.keeps_map {f : α → β} {c : Contract β} :
    (p.map f).Keeps c s₁ ↔ p.Keeps (c.before f) s₁ := by
  induction p generalizing s₁ with
  | done a => exact Iff.rfl
  | look k ih => exact ih s₁
  | change g next ih => exact and_congr Iff.rfl ih
  | ask calls joining k ih =>
    exact forall_congr' fun answer => forall_congr' fun s' => imp_congr Iff.rfl (ih answer)

end Program

/-! ### The programs of a fleet -/

/-- Duties in a fleet: what holds of the program that does a job as long as it waits, what it
guarantees whenever its turn comes, and what it ensures at its end. -/
structure Duties (net : Network σ) (ι α : Type) where
  Holds : ι → Waiting α → Stores → Prop
  Guarantees : ι → Stores → Stores → Prop
  Ensures : ι → α → Stores → Prop
  turn : ∀ {i : ι} {w : Waiting α} {s : Scene σ}, Holds i w s.stores →
    Guarantees i s.stores (w.run net s).1.stores ∧
      (w.run net s).2.Meets (Holds i) (Ensures i) (w.run net s).1.stores

namespace Duties

variable {net : Network σ} (d : Duties net ι α)

/-- What is guaranteed of one job disturbs nothing of another one. -/
def Spares (i j : ι) : Prop :=
  ∀ s s', d.Guarantees i s s' →
    (∀ w, d.Holds j w s → d.Holds j w s') ∧ ∀ a, d.Ensures j a s → d.Ensures j a s'

/-- Neither of two jobs disturbs the other one. -/
def Apart (i j : ι) : Prop := d.Spares i j ∧ d.Spares j i

/-- Some program does its job. -/
def Changes (jobs : List ι) (s s' : Stores) : Prop := ∃ i ∈ jobs, d.Guarantees i s s'

end Duties

/-- The programs of a fleet, each with its job, and those that ended there with theirs. -/
structure Fleet.Assigned {net : Network σ} (d : Duties net ι α) (f : Fleet α) (s : Stores)
    (atWork : List (ι × Waiting α)) (ended : List (ι × α)) : Prop where
  programs : (atWork.map (·.2)).Perm (f.inLine ++ f.waiting)
  results : ended.map (·.2) = f.finished
  holds : ∀ m ∈ atWork, d.Holds m.1 m.2 s
  ensures : ∀ m ∈ ended, d.Ensures m.1 m.2 s

/-- Each of some jobs is at work in a fleet, or has come to its end there. -/
def Fleet.Serves {net : Network σ} (d : Duties net ι α) (jobs : List ι) (f : Fleet α)
    (s : Stores) : Prop :=
  ∃ atWork ended, f.Assigned d s atWork ended ∧
    (atWork.map (·.1) ++ ended.map (·.1)).Perm jobs

namespace Fleet

variable {net : Network σ} {d : Duties net ι α} {jobs : List ι} {f : Fleet α} {s : Scene σ}

/-- A fleet serves the jobs it was launched for. -/
theorem serves_launch {n : Nat} {program : ι → Program α n} {stores : Stores}
    (holds : ∀ i ∈ jobs, d.Holds i (.ofProgram (program i)) stores) :
    (launch (jobs.map program)).Serves d jobs stores := by
  refine ⟨jobs.map fun i => (i, .ofProgram (program i)), [], ⟨?_, rfl, ?_, by simp⟩, ?_⟩
  · rw [launch, List.append_nil, List.map_map, List.map_map]
    exact .refl _
  · intro m among
    obtain ⟨i, job, rfl⟩ := List.mem_map.mp among
    exact holds i job
  · rw [List.map_nil, List.append_nil, List.map_map]
    exact .of_eq (List.map_id _)

theorem Serves.perm {jobs' : List ι} {stores : Stores} (h : f.Serves d jobs stores)
    (same : jobs.Perm jobs') : f.Serves d jobs' stores := by
  obtain ⟨atWork, ended, assigned, jobs_eq⟩ := h
  exact ⟨atWork, ended, assigned, jobs_eq.trans same⟩

/-- A fleet goes on serving its jobs when the stores change in a way that disturbs none of them. -/
theorem Serves.lasts {stores stores' : Stores} (h : f.Serves d jobs stores)
    (holds : ∀ i ∈ jobs, ∀ w, d.Holds i w stores → d.Holds i w stores')
    (ensures : ∀ i ∈ jobs, ∀ a, d.Ensures i a stores → d.Ensures i a stores') :
    f.Serves d jobs stores' := by
  obtain ⟨atWork, ended, assigned, same⟩ := h
  refine ⟨atWork, ended, ⟨assigned.programs, assigned.results, fun m among => ?_,
    fun m among => ?_⟩, same⟩
  · have job := same.subset (List.mem_append_left _ (List.mem_map_of_mem among))
    exact holds _ job _ (assigned.holds m among)
  · have job := same.subset (List.mem_append_right _ (List.mem_map_of_mem among))
    exact ensures _ job _ (assigned.ensures m among)

/-- When the first program is taken out of the line, the others serve the other jobs. -/
theorem Serves.takeFirst {stores : Stores} (h : f.Serves d jobs stores) {w : Waiting α}
    {rest : List (Waiting α)} (first : f.inLine = w :: rest) :
    ∃ i others, (i :: others).Perm jobs ∧ d.Holds i w stores ∧
      { f with inLine := rest }.Serves d others stores := by
  obtain ⟨atWork, ended, assigned, same⟩ := h
  obtain ⟨⟨i, w'⟩, among, rfl⟩ : ∃ m ∈ atWork, m.2 = w := by
    refine List.mem_map.mp (assigned.programs.mem_iff.mpr ?_)
    rw [first]
    exact List.mem_append_left _ List.mem_cons_self
  obtain ⟨before, after, rfl⟩ := List.append_of_mem among
  have programs : ((before ++ after).map (·.2)).Perm (rest ++ f.waiting) := by
    have moved := ((List.perm_middle (a := (i, w'))).map (·.2)).symm.trans assigned.programs
    rw [first] at moved
    exact List.Perm.cons_inv moved
  refine ⟨i, (before ++ after).map (·.1) ++ ended.map (·.1), ?_, assigned.holds _ among,
    before ++ after, ended, ⟨programs, assigned.results, fun m other => ?_, assigned.ensures⟩,
    .refl _⟩
  · exact (((List.perm_middle (a := (i, w'))).map (·.1)).symm.append_right _).trans same
  · exact assigned.holds m (List.perm_middle.symm.subset (List.mem_cons_of_mem _ other))

/-- A program that is added to a fleet serves its job there, whether it waits or has ended. -/
theorem Serves.add {stores : Stores} (h : f.Serves d jobs stores) {i : ι} {task : Task α}
    (meets : task.Meets (d.Holds i) (d.Ensures i) stores) :
    (f.add task).Serves d (i :: jobs) stores := by
  obtain ⟨atWork, ended, assigned, same⟩ := h
  cases task with
  | waiting w =>
    refine ⟨atWork ++ [(i, w)], ended, ⟨?_, assigned.results, ?_, assigned.ensures⟩, ?_⟩
    · have moved := assigned.programs.append_right [w]
      rw [List.append_assoc] at moved
      rwa [List.map_append]
    · intro m among
      rcases List.mem_append.mp among with other | this
      · exact assigned.holds m other
      · obtain rfl := List.mem_singleton.mp this
        exact meets
    · rw [List.map_append, List.append_assoc]
      exact List.perm_middle.trans (same.cons i)
  | finished a =>
    refine ⟨atWork, ended ++ [(i, a)], ⟨assigned.programs, ?_, assigned.holds, ?_⟩, ?_⟩
    · rw [List.map_append, assigned.results]
      rfl
    · intro m among
      rcases List.mem_append.mp among with other | this
      · exact assigned.ensures m other
      · obtain rfl := List.mem_singleton.mp this
        exact meets
    · have last : (ended ++ [(i, a)]).map (·.1) = ended.map (·.1) ++ [i] := List.map_append
      rw [last, ← List.append_assoc]
      exact (List.perm_append_singleton _ _).trans (same.cons i)

/-- A fleet whose first program has its turn goes on serving its jobs. -/
theorem Serves.next (h : f.Serves d jobs s.stores) (apart : jobs.Pairwise d.Apart)
    {w : Waiting α} {rest : List (Waiting α)} (first : f.inLine = w :: rest) :
    ({ f with inLine := rest }.add (w.run net s).2).Serves d jobs (w.run net s).1.stores ∧
      d.Changes jobs s.stores (w.run net s).1.stores := by
  obtain ⟨i, others, same, holds, serves⟩ := h.takeFirst first
  obtain ⟨guaranteed, meets⟩ := d.turn holds
  have apart : (i :: others).Pairwise d.Apart :=
    (same.pairwise_iff fun apart => ⟨apart.2, apart.1⟩).mpr apart
  -- what this program changes disturbs none of the others
  have spares (j : ι) (other : j ∈ others) :=
    (List.rel_of_pairwise_cons apart other).1 _ _ guaranteed
  have serves := serves.lasts (fun j other => (spares j other).1) fun j other => (spares j other).2
  exact ⟨(serves.add meets).perm same, i, same.subset List.mem_cons_self, guaranteed⟩

/-- A fleet some of whose programs have their turns goes on serving its jobs. -/
theorem Serves.run (count : Nat) (h : f.Serves d jobs s.stores) (apart : jobs.Pairwise d.Apart) :
    (f.run net count s).2.Serves d jobs (f.run net count s).1.stores ∧
      ReflTransGen (d.Changes jobs) s.stores (f.run net count s).1.stores := by
  induction count generalizing f s with
  | zero => exact ⟨h, .refl⟩
  | succ count ih =>
    rw [Fleet.run]
    cases first : f.inLine with
    | nil => exact ⟨h, .refl⟩
    | cons w rest =>
      obtain ⟨serves, changes⟩ := h.next apart first
      obtain ⟨serves', changes'⟩ := ih serves
      exact ⟨serves', .head changes changes'⟩

/-- Nothing is changed for a fleet when the clock moves. -/
theorem Serves.wake (time : Nat) {stores : Stores} (h : f.Serves d jobs stores) :
    (f.wake time).Serves d jobs stores := by
  obtain ⟨atWork, ended, assigned, same⟩ := h
  refine ⟨atWork, ended, ⟨assigned.programs.trans ?_, assigned.results, assigned.holds,
    assigned.ensures⟩, same⟩
  rw [Fleet.wake, List.append_assoc]
  exact (((List.mergeSort_perm _ _).append_right _).trans
    (List.filter_append_perm _ _)).symm.append_left _

/-- A fleet goes on serving its jobs until results are to be collected. -/
theorem Serves.proceed {post : Post} {s' : Scene σ} {f' : Fleet α} (h : f.Serves d jobs s.stores)
    (apart : jobs.Pairwise d.Apart) (proceeds : f.proceed? net post s = some (s', f')) :
    f'.Serves d jobs s'.stores ∧ ReflTransGen (d.Changes jobs) s.stores s'.stores := by
  unfold proceed? at proceeds
  split at proceeds
  · cases proceeds
  · obtain ⟨rfl, rfl⟩ := Prod.mk.inj (Option.some.inj proceeds)
    cases room : post.room with
    | none => exact Serves.run (s := { s with dropped := 0 }) _ h apart
    | some n => exact Serves.run (s := { s with dropped := s.dropped - n }) _ h apart
  · obtain ⟨rfl, rfl⟩ := Prod.mk.inj (Option.some.inj proceeds)
    exact ⟨h.wake _, .refl⟩

/-- Nobody is at work in a fleet that is done. -/
theorem eq_nil_of_isDone {atWork : List (ι × Waiting α)}
    (programs : (atWork.map (·.2)).Perm (f.inLine ++ f.waiting)) (done : f.isDone) :
    atWork = [] := by
  rw [isDone, Bool.and_eq_true, List.isEmpty_iff, List.isEmpty_iff] at done
  rw [done.1, done.2] at programs
  exact List.map_eq_nil_iff.mp programs.eq_nil

/-- When results are collected, each is what its job ensures. The other jobs are still served. -/
theorem Serves.collect {stores : Stores} (h : f.Serves d jobs stores) :
    ∃ (left : List ι) (ended : List (ι × α)), { f with finished := [] }.Serves d left stores ∧
      ended.map (·.2) = f.finished ∧ (∀ m ∈ ended, d.Ensures m.1 m.2 stores) ∧
      (left ++ ended.map (·.1)).Perm jobs ∧ (f.isDone → left = []) := by
  obtain ⟨atWork, ended, assigned, same⟩ := h
  refine ⟨atWork.map (·.1), ended, ⟨atWork, [], ⟨assigned.programs, rfl, assigned.holds, by simp⟩,
    by rw [List.map_nil, List.append_nil]⟩, assigned.results, assigned.ensures, same,
    fun done => ?_⟩
  rw [eq_nil_of_isDone assigned.programs done]
  rfl

end Fleet

end CrossBook.Engine
