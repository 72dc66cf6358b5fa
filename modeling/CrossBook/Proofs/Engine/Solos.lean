import CrossBook.Proofs.Engine.Likeness
import Mathlib.Logic.Relation

/-!
# Programs on their own

A program that runs on its own looks at its calls whenever one of its own timers is due. Side by
side with others that leave alone what it sees, it takes the course it takes on its own, whatever
the order in which the turns of the programs come.

## Main definitions

* `Engine.Task.Comes` — what a program that runs on its own comes to, and when
* `Engine.Solos` — what programs come to on their own, and what they have to see alike
* `Engine.Fleet.Plays` — the programs of a fleet take the courses they take on their own

## Main results

* `Engine.Program.exists_comes` — a program that runs on its own comes to its end
* `Engine.Fleet.Plays.proceed` — so do those of a fleet, until results are to be collected
-/

namespace CrossBook.Engine

variable {σ τ α ι : Type}

/-! ### Calls that are waited for -/

/-- Something holds of each of some calls. -/
def Answers.All {f : Call → Type} (P : ∀ c, f c → Prop) : {calls : List Call} →
    Answers f calls → Prop
  | _, .nil => True
  | _, .cons a rest => P _ a ∧ All P rest

/-- A call that has not ended goes on only later, and all its waits take some time. -/
def Slot.Ahead (now : Nat) (c : Call) : Slot c → Prop
  | .answered _ => True
  | .waiting wait later deadline => now < wait.time ∧ now < deadline.time ∧ 0 ∉ later

section Ahead

variable {net : Network σ} {c : Call} {calls : List Call} {now : Nat}

theorem Scene.now_lt_setTimer (s : Scene σ) {wait : Nat} (takes : wait ≠ 0) :
    s.now < (s.setTimer wait).2.time :=
  Nat.lt_add_of_pos_right (lt_min (Nat.pos_of_ne_zero takes) (by decide))

theorem Answers.All.lt_time {slots : Answers Slot calls} (h : slots.All (Slot.Ahead now))
    {t : Timer} (set : t ∈ timers slots) : now < t.time := by
  induction slots with
  | nil => cases set
  | cons slot slots ih =>
    obtain ⟨first, others⟩ := h
    cases slot with
    | answered r => exact ih others set
    | waiting wait later deadline =>
      rcases List.mem_cons.mp set with rfl | set
      · exact first.1
      · rcases List.mem_cons.mp set with rfl | set
        · exact first.2.1
        · exact ih others set

namespace Network

theorem ahead_begin (c : Call) (s : Scene σ) : (net.begin c s).2.Ahead s.now c := by
  rw [begin]
  cases c.known? with
  | some a => trivial
  | none =>
    dsimp only
    cases waits : (net.waits c s.world).filter (· ≠ 0) with
    | nil => trivial
    | cons first later =>
      have takes : ∀ wait ∈ first :: later, wait ≠ 0 := by
        intro wait among
        rw [← waits] at among
        simpa using (List.mem_filter.mp among).2
      dsimp only
      split_ifs with none
      · trivial
      · refine ⟨s.now_lt_setTimer (takes first List.mem_cons_self), ?_, fun among => ?_⟩
        · exact (s.setTimer first).1.now_lt_setTimer (Nat.mul_ne_zero (by decide) none)
        · exact takes 0 (List.mem_cons_of_mem _ among) rfl

theorem ahead_unlessLate {wait deadline : Timer} {later : List Nat} (waits : now < wait.time)
    (takes : 0 ∉ later) : (net.unlessLate c wait later deadline now).Ahead now c := by
  rw [unlessLate]
  split_ifs with late
  · trivial
  · exact ⟨waits, Nat.lt_of_not_le late, takes⟩

theorem ahead_look {slot : Slot c} (h : slot.Ahead now c) (s : Scene σ) :
    (net.look c slot s).2.Ahead s.now c := by
  cases slot with
  | answered r => trivial
  | waiting wait later deadline =>
    unfold look
    dsimp only
    split_ifs with passed
    · cases later with
      | nil => trivial
      | cons next later =>
        obtain ⟨takes, others⟩ := not_or.mp (mt List.mem_cons.mpr h.2.2)
        exact ahead_unlessLate (s.now_lt_setTimer (Ne.symm takes)) others
    · exact ahead_unlessLate (Nat.lt_of_not_le passed) h.2.2

theorem ahead_beginAll (calls : List Call) (s : Scene σ) :
    (net.beginAll calls s).2.All (Slot.Ahead s.now) := by
  induction calls generalizing s with
  | nil => trivial
  | cons c calls ih =>
    have same : (net.begin c s).1.now = s.now := congrArg Prod.fst (net.clock_begin c s)
    have others := ih (net.begin c s).1
    rw [same] at others
    exact ⟨net.ahead_begin c s, others⟩

theorem ahead_lookAll {slots : Answers Slot calls} (h : slots.All (Slot.Ahead now))
    (s : Scene σ) : (net.lookAll slots s).2.All (Slot.Ahead s.now) := by
  induction slots generalizing s with
  | nil => trivial
  | cons slot slots ih =>
    have same : (net.look _ slot s).1.now = s.now := congrArg Prod.fst (net.clock_look slot s)
    have others := ih h.2 (net.look _ slot s).1
    rw [same] at others
    exact ⟨ahead_look h.1 s, others⟩

end Network

variable {s : Scene σ} {w w' : Waiting α}

theorem ahead_of_advance {n : Nat} {p : Program α n} (h : (advance net p s).2 = .waiting w) :
    w.slots.All (Slot.Ahead s.now) := by
  induction p generalizing s with
  | done a => cases h
  | look k ih => exact ih s.stores h
  | change f next ih => exact ih (s := { s with stores := f s.stores }) h
  | ask calls joining k ih =>
    rw [advance] at h
    have same : (net.beginAll calls s).1.now = s.now :=
      congrArg Prod.fst (net.clock_beginAll calls s)
    cases joined : joined? 0 (net.beginAll calls s).2 joining with
    | some answer =>
      simp only [joined] at h
      exact same ▸ ih answer h
    | none =>
      simp only [joined, Task.waiting.injEq] at h
      subst h
      exact net.ahead_beginAll calls s

theorem Waiting.ahead_run (h : w.slots.All (Slot.Ahead now)) (ran : (w.run net s).2 = .waiting w') :
    w'.slots.All (Slot.Ahead s.now) := by
  rw [run] at ran
  have same : (net.lookAll w.slots s).1.now = s.now :=
    congrArg Prod.fst (net.clock_lookAll w.slots s)
  cases joined : joined? w.looks (net.lookAll w.slots s).2 w.joining with
  | some answer =>
    simp only [joined] at ran
    exact same ▸ ahead_of_advance ran
  | none =>
    simp only [joined, Task.waiting.injEq] at ran
    subst ran
    exact net.ahead_lookAll h s

end Ahead

/-! ### One program on its own -/

/-- The time of the next timer of a program. -/
def Waiting.nextTime? (w : Waiting α) : Option Nat := ((timers w.slots).map (·.time)).min?

/-- A program that runs on its own from some scene comes to its end with a value and a scene. The
clock moves to its next timer, and the program looks at its calls. -/
inductive Task.Comes (net : Network σ) : Task α → Scene σ → α → Scene σ → Prop
  | finished (a : α) (s : Scene σ) : Comes net (.finished a) s a s
  | waiting {w : Waiting α} {s e : Scene σ} {time : Nat} {a : α} (next : w.nextTime? = some time)
      (later : s.now < time)
      (comes : Comes net (w.run net { s with now := time }).2 (w.run net { s with now := time }).1
        a e) : Comes net (.waiting w) s a e

section Alone

variable {net : Network σ} {s e : Scene σ} {a : α}

theorem Task.Comes.now_le {task : Task α} (h : task.Comes net s a e) : s.now ≤ e.now := by
  induction h with
  | finished a s => exact le_rfl
  | waiting next later comes ih =>
    rw [Waiting.now_run] at ih
    exact later.le.trans ih

theorem Waiting.exists_nextTime? {w : Waiting α} (set : timers w.slots ≠ []) :
    ∃ time, w.nextTime? = some time := by
  refine Option.ne_none_iff_exists'.mp fun none => set ?_
  rwa [nextTime?, List.min?_eq_none_iff, List.map_eq_nil_iff] at none

theorem Waiting.exists_timer {w : Waiting α} {time : Nat} (next : w.nextTime? = some time) :
    ∃ t ∈ timers w.slots, t.time = time := List.mem_map.mp (List.min?_mem next)

/-- A timer is due when the next one is. -/
theorem Waiting.isDue_iff_of_nextTime? {w : Waiting α} {next time : Nat}
    (h : w.nextTime? = some next) : w.isDue time ↔ next ≤ time := by
  obtain ⟨among, least⟩ := List.min?_eq_some_iff.mp h
  obtain ⟨t, set, rfl⟩ := List.mem_map.mp among
  rw [isDue_iff]
  constructor
  · rintro ⟨t', set', due⟩
    exact (least _ (List.mem_map_of_mem set')).trans due
  · exact fun due => ⟨t, set, due⟩

/-- Programs that wait alike have their next timers in step. -/
theorem Waiting.Alike.nextTime? {k : Kinship α} {lead next : Nat} {w w₀ : Waiting α}
    (h : w.Alike k lead w₀) (first : w₀.nextTime? = some next) :
    w.nextTime? = some (next + lead) := by
  obtain ⟨among, least⟩ := List.min?_eq_some_iff.mp first
  have times : (timers w.slots).map (·.time) = ((timers w₀.slots).map (·.time)).map (· + lead) := by
    cases h with
    | mk inStep alike => rw [List.map_map]; exact timers_of_alike inStep
  rw [Waiting.nextTime?, times, List.min?_eq_some_iff]
  refine ⟨List.mem_map_of_mem among, fun time later => ?_⟩
  obtain ⟨time₀, set, rfl⟩ := List.mem_map.mp later
  exact Nat.add_le_add_right (least time₀ set) lead

/-- A program that waits for a timer comes to its end on its own. -/
theorem Waiting.exists_comes (w : Waiting α) (s : Scene σ) (set : timers w.slots ≠ [])
    (ahead : w.slots.All (Slot.Ahead s.now)) : ∃ a e, Task.Comes net (.waiting w) s a e := by
  obtain ⟨time, next⟩ := exists_nextTime? set
  obtain ⟨t, among, rfl⟩ := exists_timer next
  have ready : w.Ready t.time := .inr (isDue_iff.mpr ⟨t, among, le_rfl⟩)
  cases ran : (w.run net { s with now := t.time }).2 with
  | finished a =>
    refine ⟨a, (w.run net { s with now := t.time }).1, .waiting next (ahead.lt_time among) ?_⟩
    rw [ran]
    exact .finished a _
  | waiting w' =>
    -- its turn has worn it, and it goes on from there
    obtain ⟨set', worn⟩ := run_wears (s := { s with now := t.time }) ready ran
    obtain ⟨a, e, comes⟩ := exists_comes w' (w.run net { s with now := t.time }).1 set'
      (by rw [now_run]; exact ahead_run ahead ran)
    refine ⟨a, e, .waiting next (ahead.lt_time among) ?_⟩
    rw [ran]
    exact comes
termination_by (w.asksLeft, waitsLeft w.slots)
decreasing_by exact Prod.lex_def.mpr worn

/-- A program comes to its end on its own. -/
theorem Program.exists_comes (net : Network σ) {n : Nat} (p : Program α n) (s : Scene σ) :
    ∃ a e, (advance net p s).2.Comes net (advance net p s).1 a e := by
  cases ran : (advance net p s).2 with
  | finished a => exact ⟨a, _, .finished a _⟩
  | waiting w =>
    refine w.exists_comes _ (timers_ne_nil_of_advance ran) ?_
    rw [show (advance net p s).1.now = s.now from congrArg Prod.fst (clock_advance p s)]
    exact ahead_of_advance ran

end Alone

/-! ### Side by side -/

/-- What programs come to on their own, each for its job: how the program of a fleet that does the
job is akin to it, and the value and the scene with which it ends. -/
structure Solos (net : Network σ) (view : σ → τ) (ι α : Type) where
  kin : ι → Kinship α
  value : ι → α
  ending : ι → Scene σ

namespace Solos

variable {net : Network σ} {view : σ → τ} (c : Solos net view ι α) (lead : Nat)

/-- A program whose turn it is will do what one does that comes to the end of its job on its own. -/
def OnTurn (i : ι) (w : Waiting α) (s : Scene σ) : Prop :=
  ∃ (w₀ : Waiting α) (s₀ : Scene σ), w.Alike (c.kin i) lead w₀ ∧ s.InStep view lead s₀ ∧
    (c.kin i).Sees s.stores s₀.stores ∧
    (w₀.run net s₀).2.Comes net (w₀.run net s₀).1 (c.value i) (c.ending i)

/-- A program that waits does so as one does that comes to the end of its job on its own. -/
def Asleep (i : ι) (w : Waiting α) (s : Scene σ) : Prop :=
  ∃ (w₀ : Waiting α) (s₀ : Scene σ) (time : Nat), w.Alike (c.kin i) lead w₀ ∧
    w₀.nextTime? = some time ∧ s.now < time + lead ∧ view s.world = view s₀.world ∧
    (c.kin i).Sees s.stores s₀.stores ∧
    (w₀.run net { s₀ with now := time }).2.Comes net (w₀.run net { s₀ with now := time }).1
      (c.value i) (c.ending i)

/-- A program has ended as the one does that runs on its own, and when that one does. -/
structure AtEnd (i : ι) (a : α) (s : Scene σ) : Prop where
  agrees : (c.kin i).Agrees a (c.value i)
  sees : (c.kin i).Sees s.stores (c.ending i).stores
  ended : (c.ending i).now + lead ≤ s.now

/-- What one job guarantees makes no difference to what another one sees. -/
def Spares (i j : ι) : Prop :=
  ∀ s s' s₀, (c.kin i).Guarantees s s' → (c.kin j).Sees s s₀ → (c.kin j).Sees s' s₀

/-- Neither of two jobs disturbs the other one. -/
def Apart (i j : ι) : Prop := c.Spares i j ∧ c.Spares j i

/-- Some program does its job. -/
def Changes (jobs : List ι) (s s' : Stores) : Prop := ∃ i ∈ jobs, (c.kin i).Guarantees s s'

/-- For the program of a job nothing happens from one scene to another one. -/
structure Meanwhile (i : ι) (s s' : Scene σ) : Prop where
  world : view s'.world = view s.world
  now : s'.now = s.now
  sees : ∀ s₀, (c.kin i).Sees s.stores s₀ → (c.kin i).Sees s'.stores s₀

variable {c lead} {i : ι} {w : Waiting α} {a : α} {s s' : Scene σ}

theorem OnTurn.lasts (h : c.OnTurn lead i w s) (same : c.Meanwhile i s s') :
    c.OnTurn lead i w s' := by
  obtain ⟨w₀, s₀, alike, step, sees, comes⟩ := h
  exact ⟨w₀, s₀, alike, ⟨same.world.trans step.world, same.now.trans step.now⟩, same.sees _ sees,
    comes⟩

theorem Asleep.lasts (h : c.Asleep lead i w s) (same : c.Meanwhile i s s') :
    c.Asleep lead i w s' := by
  obtain ⟨w₀, s₀, time, alike, next, later, world, sees, comes⟩ := h
  exact ⟨w₀, s₀, time, alike, next, same.now ▸ later, same.world.trans world, same.sees _ sees,
    comes⟩

theorem AtEnd.lasts (h : c.AtEnd lead i a s) (same : c.Meanwhile i s s') : c.AtEnd lead i a s' :=
  ⟨h.agrees, same.sees _ h.sees, same.now ▸ h.ended⟩

/-- A program that waits has not come to its end on its own either. -/
theorem Asleep.now_lt (h : c.Asleep lead i w s) : s.now < (c.ending i).now + lead := by
  obtain ⟨w₀, s₀, time, -, -, later, -, -, comes⟩ := h
  have ended := comes.now_le
  rw [w₀.now_run] at ended
  exact later.trans_le (Nat.add_le_add_right ended lead)

/-- A program whose turn has come waits or has ended as the one does that runs on its own. -/
theorem OnTurn.run (impartial : net.Impartial view) (h : c.OnTurn lead i w s) :
    (c.kin i).Guarantees s.stores (w.run net s).1.stores ∧
      (∀ w', (w.run net s).2 = .waiting w' → c.Asleep lead i w' (w.run net s).1) ∧
      ∀ a, (w.run net s).2 = .finished a → c.AtEnd lead i a (w.run net s).1 := by
  obtain ⟨w₀, s₀, alike, step, sees, comes⟩ := h
  obtain ⟨guaranteed, seen, alike⟩ := alike.run impartial step sees
  have step : (w.run net s).1.InStep view lead (w₀.run net s₀).1 :=
    step.of_clock (impartial.view_run w s) (w.clock_run s) (impartial.view_run w₀ s₀)
      (w₀.clock_run s₀)
  -- the two go on waiting, or end, together
  refine ⟨guaranteed, fun w' waits => ?_, fun a ended => ?_⟩
  · rw [waits] at alike
    cases task : (w₀.run net s₀).2 with
    | finished a₀ =>
      rw [task] at alike
      cases alike
    | waiting w₀' =>
      rw [task] at alike comes
      cases alike with
      | waiting alike =>
        cases comes with
        | @waiting _ _ _ time _ next later comes =>
          refine ⟨w₀', (w₀.run net s₀).1, time, alike, next, ?_, step.world, seen, comes⟩
          rw [step.now]
          exact Nat.add_lt_add_right later lead
  · rw [ended] at alike
    cases task : (w₀.run net s₀).2 with
    | waiting w₀' =>
      rw [task] at alike
      cases alike
    | finished a₀ =>
      rw [task] at alike comes
      cases alike with
      | finished agree =>
        generalize (w₀.run net s₀).1 = s₁ at comes seen step
        generalize value : c.value i = v at comes
        generalize scene : c.ending i = e at comes
        cases comes with
        | finished => exact ⟨value ▸ agree, scene ▸ seen, by rw [scene, step.now]⟩

/-- When the clock moves to a timer that is not later than those of a program, its turn comes if one
of them is due, and else it goes on waiting. -/
theorem Asleep.wake (h : c.Asleep lead i w s) {time : Nat}
    (first : ∀ t ∈ timers w.slots, time ≤ t.time) :
    (w.isDue time → c.OnTurn lead i w { s with now := max s.now time }) ∧
      (¬ w.isDue time → c.Asleep lead i w { s with now := max s.now time }) := by
  obtain ⟨w₀, s₀, time₀, alike, next, later, world, sees, comes⟩ := h
  have next' := alike.nextTime? next
  obtain ⟨t, set, ends⟩ := Waiting.exists_timer next'
  have early : time ≤ time₀ + lead := ends ▸ first t set
  rw [Waiting.isDue_iff_of_nextTime? next']
  constructor
  · intro due
    -- the clock stands at the program's own next timer, as it would if nobody else were there
    have now : max s.now time = time₀ + lead :=
      (max_eq_right (later.le.trans due)).trans (le_antisymm early due)
    exact ⟨w₀, { s₀ with now := time₀ }, alike, ⟨world, now⟩, sees, comes⟩
  · intro undue
    exact ⟨w₀, s₀, time₀, alike, next, max_lt later (Nat.lt_of_not_le undue), world, sees, comes⟩

end Solos

/-! ### The programs of a fleet -/

/-- The programs of a fleet, each with its job, by where they stand. Some values have been
collected. -/
structure Fleet.Cast {net : Network σ} {view : σ → τ} (c : Solos net view ι α) (lead : Nat)
    (collected : List α) (f : Fleet α) (s : Scene σ) (onTurn asleep : List (ι × Waiting α))
    (ended : List (ι × α)) : Prop where
  inLine : (onTurn.map (·.2)).Perm f.inLine
  waiting : (asleep.map (·.2)).Perm f.waiting
  finished : ended.map (·.2) = collected ++ f.finished
  ready : ∀ m ∈ onTurn, c.OnTurn lead m.1 m.2 s
  waits : ∀ m ∈ asleep, c.Asleep lead m.1 m.2 s
  atEnd : ∀ m ∈ ended, c.AtEnd lead m.1 m.2 s

/-- Each of some jobs is done in a fleet as it is done on its own, where some values have been
collected. -/
def Fleet.Plays {net : Network σ} {view : σ → τ} (c : Solos net view ι α) (lead : Nat)
    (jobs : List ι) (collected : List α) (f : Fleet α) (s : Scene σ) : Prop :=
  ∃ onTurn asleep ended, f.Cast c lead collected s onTurn asleep ended ∧
    (onTurn.map (·.1) ++ asleep.map (·.1) ++ ended.map (·.1)).Perm jobs

namespace Fleet

open Relation

variable {net : Network σ} {view : σ → τ} {c : Solos net view ι α} {lead : Nat} {jobs : List ι}
  {collected : List α} {f : Fleet α} {s s' : Scene σ}

/-- The programs of a fleet that is launched do what they do on their own. -/
theorem plays_launch (s s₀ : Scene σ) {n : Nat} {program program₀ : ι → Program α n}
    (alike : ∀ i ∈ jobs, (program i).Alike (c.kin i) (program₀ i))
    (world : view s.world = view s₀.world) (start : s₀.now = 0)
    (sees : ∀ i ∈ jobs, (c.kin i).Sees s.stores s₀.stores)
    (comes : ∀ i ∈ jobs, (advance net (program₀ i) s₀).2.Comes net (advance net (program₀ i) s₀).1
      (c.value i) (c.ending i)) :
    (launch (jobs.map program)).Plays c s.now jobs [] s := by
  refine ⟨jobs.map fun i => (i, .ofProgram (program i)), [], [], ⟨?_, .nil, rfl, ?_, by simp,
    by simp⟩, ?_⟩
  · rw [launch, List.map_map, List.map_map]
    exact .refl _
  · intro m among
    obtain ⟨i, job, rfl⟩ := List.mem_map.mp among
    exact ⟨.ofProgram (program₀ i), s₀, (alike i job).ofProgram,
      ⟨world, by rw [start, Nat.zero_add]⟩, sees i job, comes i job⟩
  · rw [List.map_nil, List.map_nil, List.append_nil, List.append_nil, List.map_map]
    exact .of_eq (List.map_id _)

theorem Plays.lasts (h : f.Plays c lead jobs collected s) (same : ∀ i ∈ jobs, c.Meanwhile i s s') :
    f.Plays c lead jobs collected s' := by
  obtain ⟨onTurn, asleep, ended, cast, all⟩ := h
  refine ⟨onTurn, asleep, ended, ⟨cast.inLine, cast.waiting, cast.finished, fun m among => ?_,
    fun m among => ?_, fun m among => ?_⟩, all⟩
  · exact (cast.ready m among).lasts (same _ (all.subset (by simp [List.mem_map_of_mem among])))
  · exact (cast.waits m among).lasts (same _ (all.subset (by simp [List.mem_map_of_mem among])))
  · exact (cast.atEnd m among).lasts (same _ (all.subset (by simp [List.mem_map_of_mem among])))

/-- When the first program is taken out of the line, the others do the other jobs. -/
theorem Plays.takeFirst (h : f.Plays c lead jobs collected s) {w : Waiting α}
    {rest : List (Waiting α)} (first : f.inLine = w :: rest) :
    ∃ i others, (i :: others).Perm jobs ∧ c.OnTurn lead i w s ∧
      ({ f with inLine := rest } : Fleet α).Plays c lead others collected s := by
  obtain ⟨onTurn, asleep, ended, cast, all⟩ := h
  obtain ⟨⟨i, w'⟩, among, rfl⟩ : ∃ m ∈ onTurn, m.2 = w := by
    refine List.mem_map.mp (cast.inLine.mem_iff.mpr ?_)
    rw [first]
    exact List.mem_cons_self
  obtain ⟨before, after, rfl⟩ := List.append_of_mem among
  have line : ((before ++ after).map (·.2)).Perm rest := by
    have moved := ((List.perm_middle (a := (i, w'))).map (·.2)).symm.trans cast.inLine
    rw [first] at moved
    exact List.Perm.cons_inv moved
  refine ⟨i, (before ++ after).map (·.1) ++ asleep.map (·.1) ++ ended.map (·.1), ?_,
    cast.ready _ among, before ++ after, asleep, ended,
    ⟨line, cast.waiting, cast.finished, fun m other => ?_, cast.waits, cast.atEnd⟩, .refl _⟩
  · have moved : (i :: (before ++ after).map (·.1)).Perm ((before ++ (i, w') :: after).map (·.1)) :=
      (List.perm_middle (a := (i, w')).map Prod.fst).symm
    exact ((moved.append_right _).append_right _).trans all
  · exact cast.ready m (List.perm_middle.symm.subset (List.mem_cons_of_mem _ other))

/-- A program that is added to a fleet does its job there, whether it waits or has ended. -/
theorem Plays.add (h : f.Plays c lead jobs collected s) {i : ι} {task : Task α}
    (waits : ∀ w, task = .waiting w → c.Asleep lead i w s)
    (ended : ∀ a, task = .finished a → c.AtEnd lead i a s) :
    (f.add task).Plays c lead (i :: jobs) collected s := by
  obtain ⟨onTurn, asleep, others, cast, all⟩ := h
  cases task with
  | waiting w =>
    refine ⟨onTurn, asleep ++ [(i, w)], others, ⟨cast.inLine, ?_, cast.finished, cast.ready, ?_,
      cast.atEnd⟩, ?_⟩
    · rw [List.map_append]
      exact cast.waiting.append_right _
    · exact List.forall_mem_append.mpr ⟨cast.waits, by simpa using waits w rfl⟩
    · refine .trans ?_ (all.cons i)
      have sleeps : ((asleep ++ [(i, w)]).map (·.1)).Perm (i :: asleep.map (·.1)) :=
        (List.perm_append_singleton (i, w) asleep).map Prod.fst
      exact ((sleeps.append_left _).trans List.perm_middle).append_right _
  | finished a =>
    refine ⟨onTurn, asleep, others ++ [(i, a)], ⟨cast.inLine, cast.waiting, ?_, cast.ready,
      cast.waits, ?_⟩, ?_⟩
    · rw [List.map_append, cast.finished, List.append_assoc]
      rfl
    · exact List.forall_mem_append.mpr ⟨cast.atEnd, by simpa using ended a rfl⟩
    · refine .trans ?_ (all.cons i)
      simp only [List.map_append, List.map_cons, List.map_nil]
      rw [← List.append_assoc]
      exact List.perm_append_singleton _ _

/-- One more turn of the line. -/
theorem Plays.next (impartial : net.Impartial view) (h : f.Plays c lead jobs collected s)
    (apart : jobs.Pairwise c.Apart) {w : Waiting α} {rest : List (Waiting α)}
    (first : f.inLine = w :: rest) :
    ({ f with inLine := rest }.add (w.run net s).2).Plays c lead jobs collected (w.run net s).1 ∧
      c.Changes jobs s.stores (w.run net s).1.stores := by
  obtain ⟨i, others, same, ready, plays⟩ := h.takeFirst first
  obtain ⟨guaranteed, waits, ended⟩ := ready.run impartial
  have apart : (i :: others).Pairwise c.Apart :=
    (same.pairwise_iff fun apart => ⟨apart.2, apart.1⟩).mpr apart
  -- what this program changes makes no difference to any of the others
  have meanwhile : ∀ j ∈ others, c.Meanwhile j s (w.run net s).1 := fun j other =>
    ⟨impartial.view_run w s, w.now_run net s,
      fun s₀ => (List.rel_of_pairwise_cons apart other).1 _ _ s₀ guaranteed⟩
  obtain ⟨onTurn, asleep, done, cast, all⟩ := (plays.lasts meanwhile).add waits ended
  exact ⟨⟨onTurn, asleep, done, cast, all.trans same⟩, i, same.subset List.mem_cons_self,
    guaranteed⟩

/-- Some turns of the line. -/
theorem Plays.run (impartial : net.Impartial view) (count : Nat)
    (h : f.Plays c lead jobs collected s) (apart : jobs.Pairwise c.Apart) :
    (f.run net count s).2.Plays c lead jobs collected (f.run net count s).1 ∧
      ReflTransGen (c.Changes jobs) s.stores (f.run net count s).1.stores := by
  induction count generalizing f s with
  | zero => exact ⟨h, .refl⟩
  | succ count ih =>
    rw [Fleet.run]
    cases first : f.inLine with
    | nil => exact ⟨h, .refl⟩
    | cons w rest =>
      obtain ⟨plays, changes⟩ := h.next impartial apart first
      obtain ⟨plays', changes'⟩ := ih plays
      exact ⟨plays', .head changes changes'⟩

/-- The clock moves to the next timer of all. -/
theorem Plays.wake (h : f.Plays c lead jobs collected s) (line : f.inLine = []) {time : Nat}
    (next : f.nextTime? = some time) :
    (f.wake time).Plays c lead jobs collected { s with now := max s.now time } := by
  obtain ⟨onTurn, asleep, ended, cast, all⟩ := h
  obtain rfl : onTurn = [] := List.map_eq_nil_iff.mp (line ▸ cast.inLine).eq_nil
  -- the next timer of all is not later than those of any program
  have first : ∀ m ∈ asleep, ∀ t ∈ timers m.2.slots, time ≤ t.time := by
    intro m among t set
    refine (List.min?_eq_some_iff.mp next).2 _ (List.mem_map_of_mem (List.mem_flatten.mpr ?_))
    exact ⟨_, List.mem_map_of_mem (cast.waiting.subset (List.mem_map_of_mem among)), set⟩
  have awake (m : ι × Waiting α) (among : m ∈ asleep) :=
    (cast.waits m among).wake (first m among)
  refine ⟨asleep.filter fun m => m.2.isDue time, asleep.filter fun m => !m.2.isDue time, ended,
    ⟨?_, ?_, cast.finished, fun m among => ?_, fun m among => ?_, fun m among => ?_⟩, ?_⟩
  · rw [Fleet.wake, line, List.nil_append]
    have due := cast.waiting.filter fun w => w.isDue time
    rw [List.filter_map] at due
    exact due.trans (List.mergeSort_perm _ _).symm
  · have undue := cast.waiting.filter fun w => !w.isDue time
    rwa [List.filter_map] at undue
  · obtain ⟨waits, due⟩ := List.mem_filter.mp among
    exact (awake m waits).1 due
  · obtain ⟨waits, undue⟩ := List.mem_filter.mp among
    exact (awake m waits).2 (by simpa using undue)
  · obtain ⟨agrees, sees, before⟩ := cast.atEnd m among
    exact ⟨agrees, sees, before.trans (le_max_left ..)⟩
  · rw [← List.map_append]
    have split := List.filter_append_perm (fun m : ι × Waiting α => m.2.isDue time) asleep
    exact ((split.map (·.1)).append_right _).trans all

/-- The programs of a fleet do what they do on their own until results are to be collected. -/
theorem Plays.proceed (impartial : net.Impartial view) {post : Post} {f' : Fleet α}
    (h : f.Plays c lead jobs collected s) (apart : jobs.Pairwise c.Apart)
    (proceeds : f.proceed? net post s = some (s', f')) :
    f'.Plays c lead jobs collected s' ∧ ReflTransGen (c.Changes jobs) s.stores s'.stores := by
  unfold proceed? at proceeds
  split at proceeds
  · cases proceeds
  · obtain ⟨rfl, rfl⟩ := Prod.mk.inj (Option.some.inj proceeds)
    have plays (dropped : Nat) : f.Plays c lead jobs collected { s with dropped := dropped } :=
      h.lasts fun i _ => ⟨rfl, rfl, fun _ => id⟩
    cases room : post.room with
    | none => exact (plays 0).run impartial _ apart
    | some n => exact (plays (s.dropped - n)).run impartial _ apart
  · next waking =>
      obtain ⟨rfl, rfl⟩ := Prod.mk.inj (Option.some.inj proceeds)
      obtain ⟨-, line, next⟩ := upcoming_eq_waking_iff.mp waking
      exact ⟨h.wake line next, .refl⟩

/-- Values are collected. -/
theorem Plays.collect (h : f.Plays c lead jobs collected s) :
    ({ f with finished := [] } : Fleet α).Plays c lead jobs (collected ++ f.finished) s := by
  obtain ⟨onTurn, asleep, ended, cast, all⟩ := h
  exact ⟨onTurn, asleep, ended, ⟨cast.inLine, cast.waiting, by rw [cast.finished, List.append_nil],
    cast.ready, cast.waits, cast.atEnd⟩, all⟩

/-- Each value is what a job comes to on its own. -/
theorem Plays.exists_atEnd (h : f.Plays c lead jobs collected s) {a : α}
    (among : a ∈ collected ++ f.finished) : ∃ i ∈ jobs, c.AtEnd lead i a s := by
  obtain ⟨onTurn, asleep, ended, cast, all⟩ := h
  rw [← cast.finished] at among
  obtain ⟨m, this, rfl⟩ := List.mem_map.mp among
  exact ⟨m.1, all.subset (List.mem_append_right _ (List.mem_map_of_mem this)), cast.atEnd m this⟩

/-- When nobody is left, all jobs have come to their ends. -/
theorem Plays.complete (h : f.Plays c lead jobs collected s) (done : f.isDone) :
    ∃ ended : List (ι × α), ended.map (·.2) = collected ++ f.finished ∧
      (ended.map (·.1)).Perm jobs ∧ ∀ m ∈ ended, c.AtEnd lead m.1 m.2 s := by
  obtain ⟨onTurn, asleep, ended, cast, all⟩ := h
  rw [isDone, Bool.and_eq_true, List.isEmpty_iff, List.isEmpty_iff] at done
  obtain rfl : onTurn = [] := List.map_eq_nil_iff.mp (done.1 ▸ cast.inLine).eq_nil
  obtain rfl : asleep = [] := List.map_eq_nil_iff.mp (done.2 ▸ cast.waiting).eq_nil
  exact ⟨ended, cast.finished, all, cast.atEnd⟩

/-- When the clock has to move, somebody has not come to the end on its own either. -/
theorem Plays.exists_later (h : f.Plays c lead jobs collected s) {time : Nat}
    (waking : f.upcoming = .waking time) : ∃ i ∈ jobs, s.now < (c.ending i).now + lead := by
  obtain ⟨onTurn, asleep, ended, cast, all⟩ := h
  obtain ⟨-, -, next⟩ := upcoming_eq_waking_iff.mp waking
  obtain ⟨w, waits, -⟩ := exists_isDue_of_nextTime? next
  obtain ⟨m, among, rfl⟩ := List.mem_map.mp (cast.waiting.symm.subset waits)
  exact ⟨m.1, all.subset (by simp [List.mem_map_of_mem among]), (cast.waits m among).now_lt⟩

end Fleet

end CrossBook.Engine
