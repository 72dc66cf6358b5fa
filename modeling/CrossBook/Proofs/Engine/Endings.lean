import CrossBook.Proofs.Engine.Jobs
import Mathlib.Tactic.SplitIfs

/-!
# Blocks come to their end

Whenever the turn of a program comes, it waits less often afterwards or has come through one of its
waits. So a block that is not stopped comes to its end, within the bound that is set for it.

## Main definitions

* `Engine.Fleet.Timely` — whoever is in line can go on or look at a timer that is due, and whoever
  waits has a timer set
* `Engine.Flight.toll` — how much can still happen before a block waits less often

## Main results

* `Engine.Waiting.run_wears` — one turn of a program
* `Engine.Flight.step_wears` — one step of a block
* `Engine.Flight.runUntil_comes` — a block comes to its end or to the point where it is stopped, and
  what all steps preserve holds there
-/

namespace CrossBook.Engine

variable {σ α : Type} {net : Network σ}

/-! ### What no program changes -/

/-- The time, and the number of programs that were dropped before their turn came. -/
def Scene.clock (s : Scene σ) : Nat × Nat := (s.now, s.dropped)

namespace Network

theorem clock_begin (c : Call) (s : Scene σ) : (net.begin c s).1.clock = s.clock := by
  unfold begin
  split
  · rfl
  · split
    · rfl
    · split_ifs <;> rfl

theorem clock_look {c : Call} (slot : Slot c) (s : Scene σ) :
    (net.look c slot s).1.clock = s.clock := by
  cases slot with
  | answered r => rfl
  | waiting wait later deadline =>
    unfold look
    dsimp only
    split_ifs
    · cases later <;> rfl
    · rfl

theorem clock_beginAll (calls : List Call) (s : Scene σ) :
    (net.beginAll calls s).1.clock = s.clock := by
  induction calls generalizing s with
  | nil => rfl
  | cons c calls ih => rw [beginAll, ih, clock_begin]

theorem clock_lookAll {calls : List Call} (slots : Answers Slot calls) (s : Scene σ) :
    (net.lookAll slots s).1.clock = s.clock := by
  induction slots generalizing s with
  | nil => rfl
  | cons slot slots ih => rw [lookAll, ih, clock_look]

end Network

theorem clock_advance {n : Nat} (p : Program α n) (s : Scene σ) :
    (advance net p s).1.clock = s.clock := by
  induction p generalizing s with
  | done a => rfl
  | look k ih => exact ih s.stores s
  | change f next ih => exact ih { s with stores := f s.stores }
  | ask calls joining k ih =>
    rw [advance]
    cases joined : joined? 0 (net.beginAll calls s).2 joining with
    | some answer => simp only [joined, ih, net.clock_beginAll]
    | none => simp only [joined, net.clock_beginAll]

theorem Waiting.clock_run (w : Waiting α) (s : Scene σ) : (w.run net s).1.clock = s.clock := by
  rw [run]
  cases joined : joined? w.looks (net.lookAll w.slots s).2 w.joining with
  | some answer => simp only [joined, clock_advance, net.clock_lookAll]
  | none => simp only [joined, net.clock_lookAll]

theorem Waiting.now_run (net : Network σ) (w : Waiting α) (s : Scene σ) :
    (w.run net s).1.now = s.now :=
  congrArg Prod.fst (w.clock_run s)

/-! ### Waits -/

/-- The number of waits that a call has not come through. -/
def Slot.waits {c : Call} : Slot c → Nat
  | .answered _ => 0
  | .waiting _ later _ => later.length + 1

/-- The timers of a call that has not ended. -/
def Slot.timers {c : Call} : Slot c → List Timer
  | .answered _ => []
  | .waiting wait _ deadline => [wait, deadline]

variable {c : Call} {calls : List Call}

theorem waitsLeft_cons (slot : Slot c) (slots : Answers Slot calls) :
    waitsLeft (.cons slot slots) = slot.waits + waitsLeft slots := by
  cases slot with
  | answered r => rw [waitsLeft, Slot.waits, Nat.zero_add]
  | waiting wait later deadline => rfl

theorem timers_cons (slot : Slot c) (slots : Answers Slot calls) :
    timers (.cons slot slots) = slot.timers ++ timers slots := by
  cases slot <;> rfl

namespace Network

theorem waits_unlessLate (wait : Timer) (later : List Nat) (deadline : Timer) (now : Nat) :
    (net.unlessLate c wait later deadline now).waits ≤ later.length + 1 ∧
      (deadline.time ≤ now → (net.unlessLate c wait later deadline now).waits = 0) := by
  rw [unlessLate]
  split_ifs with late
  · exact ⟨Nat.zero_le _, fun _ => rfl⟩
  · exact ⟨le_rfl, fun h => absurd h late⟩

/-- A look never adds a wait, and it takes one away when a timer is due. -/
theorem waits_look (slot : Slot c) (s : Scene σ) :
    (net.look c slot s).2.waits ≤ slot.waits ∧
      ((∃ t ∈ slot.timers, t.time ≤ s.now) → (net.look c slot s).2.waits < slot.waits) := by
  cases slot with
  | answered r => exact ⟨le_rfl, by simp [Slot.timers]⟩
  | waiting wait later deadline =>
    unfold look
    dsimp only
    split_ifs with passed
    · cases later with
      | nil => exact ⟨Nat.zero_le _, fun _ => Nat.succ_pos _⟩
      | cons next later =>
        have fewer := (net.waits_unlessLate (c := c) (s.setTimer next).2 later deadline
          (s.setTimer next).1.now).1
        exact ⟨fewer.trans (Nat.le_succ _), fun _ => Nat.lt_succ_of_le fewer⟩
    · obtain ⟨fewer, none⟩ := net.waits_unlessLate (c := c) wait later deadline s.now
      refine ⟨fewer, ?_⟩
      rintro ⟨t, set, due⟩
      have late : deadline.time ≤ s.now := by
        rcases List.mem_pair.mp set with rfl | rfl
        · exact absurd due passed
        · exact due
      rw [none late]
      exact Nat.succ_pos _

/-- Looks never add a wait, and they take one away when a timer is due. -/
theorem waitsLeft_lookAll (slots : Answers Slot calls) (s : Scene σ) :
    waitsLeft (net.lookAll slots s).2 ≤ waitsLeft slots ∧
      ((∃ t ∈ timers slots, t.time ≤ s.now) →
        waitsLeft (net.lookAll slots s).2 < waitsLeft slots) := by
  induction slots generalizing s with
  | nil => exact ⟨le_rfl, by simp [timers]⟩
  | cons slot slots ih =>
    obtain ⟨le, lt⟩ := net.waits_look slot s
    obtain ⟨le', lt'⟩ := ih (net.look _ slot s).1
    rw [lookAll, waitsLeft_cons, waitsLeft_cons, timers_cons]
    refine ⟨Nat.add_le_add le le', ?_⟩
    rintro ⟨t, set, due⟩
    rcases List.mem_append.mp set with first | rest
    · exact Nat.add_lt_add_of_lt_of_le (lt ⟨t, first, due⟩) le'
    · have same : (net.look _ slot s).1.now = s.now := congrArg Prod.fst (net.clock_look slot s)
      exact Nat.add_lt_add_of_le_of_lt le (lt' ⟨t, rest, by rwa [same]⟩)

end Network

/-! ### Calls that have all ended -/

theorem Network.lookAll_of_timers_eq_nil {slots : Answers Slot calls} (none : timers slots = [])
    (s : Scene σ) : net.lookAll slots s = (s, slots) := by
  induction slots with
  | nil => rfl
  | cons slot slots ih =>
    cases slot with
    | answered r => simp only [lookAll, look, ih none]
    | waiting wait later deadline => cases none

theorem results?_of_timers_eq_nil {slots : Answers Slot calls} (none : timers slots = []) :
    ∃ results, results? slots = some results := by
  induction slots with
  | nil => exact ⟨.nil, rfl⟩
  | cons slot slots ih =>
    cases slot with
    | answered r =>
      obtain ⟨results, all⟩ := ih none
      exact ⟨.cons r results, by rw [results?, all]; rfl⟩
    | waiting wait later deadline => cases none

theorem replies?_of_failures {slots : Answers Slot calls} {results : Answers Call.Result calls}
    (ended : results? slots = some results) (none : ∀ e ∈ failures slots, e = none) :
    ∃ replies, replies? results = some replies := by
  induction slots with
  | nil =>
    obtain rfl := Option.some.inj ended
    exact ⟨.nil, rfl⟩
  | cons slot slots ih =>
    match slot, ended, none with
    | .answered (.ok a), ended, none =>
      obtain ⟨rest, all, rfl⟩ := Option.map_eq_some_iff.mp ended
      obtain ⟨replies, succeeded⟩ := ih all fun e among => none e (List.mem_cons_of_mem _ among)
      exact ⟨.cons a replies, by rw [replies?, succeeded]; rfl⟩
    | .answered (.error e), ended, none => cases none _ List.mem_cons_self

/-- Calls that have all ended need not be waited for any more. -/
theorem exists_joined?_of_timers_eq_nil {slots : Answers Slot calls} (none : timers slots = [])
    (looks : Nat) (joining : Joining) : ∃ answer, joined? looks slots joining = some answer := by
  obtain ⟨results, ended⟩ := results?_of_timers_eq_nil none
  cases joining with
  | untilAll => exact ⟨results, ended⟩
  | untilFailure =>
    rw [joined?]
    cases failed : failure? looks slots with
    | some e => exact ⟨.error e, rfl⟩
    | none =>
      have unfailed : ∀ e ∈ failures slots, e = .none := by
        intro e among
        rw [failure?, List.findSome?_eq_none_iff] at failed
        refine failed e ?_
        have whole := List.take_append_drop (looks % (failures slots).length) (failures slots)
        rw [← whole] at among
        exact List.mem_append.mpr (List.mem_append.mp among).symm
      obtain ⟨replies, succeeded⟩ := replies?_of_failures ended unfailed
      exact ⟨.ok replies, by simp only [ended, Option.bind_some, succeeded]; rfl⟩

/-! ### One program -/

namespace Waiting

variable {w w' : Waiting α} {s : Scene σ} {time : Nat}

theorem isDue_iff : w.isDue time = true ↔ ∃ t ∈ timers w.slots, t.time ≤ time := by
  simp [isDue, due, List.filter_eq_nil_iff]

/-- A program whose turn brings it on: its calls have all ended, or one of their timers is due. -/
def Ready (w : Waiting α) (now : Nat) : Prop := timers w.slots = [] ∨ w.isDue now

theorem ready_ofProgram {n : Nat} (p : Program α n) (now : Nat) : (ofProgram p).Ready now :=
  .inl rfl

end Waiting

/-- A program that waits has a timer set. -/
theorem timers_ne_nil_of_advance {n : Nat} {p : Program α n} {s : Scene σ} {w : Waiting α}
    (h : (advance net p s).2 = .waiting w) : timers w.slots ≠ [] := by
  induction p generalizing s with
  | done a => cases h
  | look k ih => exact ih s.stores h
  | change f next ih => exact ih h
  | ask calls joining k ih =>
    rw [advance] at h
    cases joined : joined? 0 (net.beginAll calls s).2 joining with
    | some answer =>
      simp only [joined] at h
      exact ih answer h
    | none =>
      simp only [joined, Task.waiting.injEq] at h
      subst h
      intro ended
      obtain ⟨answer, complete⟩ := exists_joined?_of_timers_eq_nil ended 0 joining
      exact Option.some_ne_none _ (complete.symm.trans joined)

/-- A program that waits again after its turn has a timer set. It waits less often than before, or
has come through one of its waits. -/
theorem Waiting.run_wears {w w' : Waiting α} {s : Scene σ} (ready : w.Ready s.now)
    (h : (w.run net s).2 = .waiting w') : timers w'.slots ≠ [] ∧
      (w'.asksLeft < w.asksLeft ∨
        w'.asksLeft = w.asksLeft ∧ waitsLeft w'.slots < waitsLeft w.slots) := by
  rw [run] at h
  cases joined : joined? w.looks (net.lookAll w.slots s).2 w.joining with
  | some answer =>
    -- it has gone on, and waits for the next calls it made
    simp only [joined] at h
    exact ⟨timers_ne_nil_of_advance h, .inl (asksLeft_lt_of_advance h)⟩
  | none =>
    -- it waits for the same calls; one of their timers was due, or else they had all ended
    simp only [joined, Task.waiting.injEq] at h
    subst h
    have unended : timers (net.lookAll w.slots s).2 ≠ [] := by
      intro ended
      obtain ⟨answer, complete⟩ := exists_joined?_of_timers_eq_nil ended w.looks w.joining
      exact Option.some_ne_none _ (complete.symm.trans joined)
    refine ⟨unended, .inr ⟨rfl, ?_⟩⟩
    refine (net.waitsLeft_lookAll w.slots s).2 (isDue_iff.mp (ready.resolve_left fun none => ?_))
    exact unended ((congrArg (timers ·.2) (net.lookAll_of_timers_eq_nil none s)).trans none)

/-! ### Fleets -/

namespace Fleet

variable {f f' : Fleet α} {s : Scene σ} {now : Nat}

/-- Whoever is in line is brought on by its turn, and whoever waits has a timer set. -/
structure Timely (f : Fleet α) (now : Nat) : Prop where
  ready : ∀ w ∈ f.inLine, w.Ready now
  timed : ∀ w ∈ f.waiting, timers w.slots ≠ []

/-- The number of waits that the programs have not come through. -/
def waits (f : Fleet α) : Nat := ((f.inLine ++ f.waiting).map fun w => waitsLeft w.slots).sum

theorem depth_eq (f : Fleet α) :
    f.depth = ((f.inLine ++ f.waiting).map fun w => w.asksLeft + 1).sum :=
  List.foldr_map.symm

theorem patience_eq (f : Fleet α) (s : Scene σ) :
    f.patience s = s.dropped + (3 * f.waits + 3) := by
  rw [patience, waits, List.append_eq]
  congr 1
  induction f.inLine ++ f.waiting with
  | nil => rfl
  | cons w rest ih =>
    rw [List.foldr_cons, ih, List.map_cons, List.sum_cons]
    omega

/-- The programs of one fleet wait less often than those of another one, or have come through a
number of waits more. -/
def Wears (turns : Nat) (f f' : Fleet α) : Prop :=
  f'.depth < f.depth ∨ f'.depth = f.depth ∧ f'.waits + turns ≤ f.waits

theorem Wears.refl (f : Fleet α) : f.Wears 0 f := .inr ⟨rfl, le_rfl⟩

theorem Wears.trans {turns turns' : Nat} {f'' : Fleet α} (h : f.Wears turns f')
    (h' : f'.Wears turns' f'') : f.Wears (turns + turns') f'' := by
  unfold Wears at *
  omega

/-- One more turn of the line. -/
theorem Timely.next (net : Network σ) (timely : f.Timely s.now) {w : Waiting α}
    {rest : List (Waiting α)} (first : f.inLine = w :: rest) :
    ({ f with inLine := rest }.add (w.run net s).2).Timely s.now ∧
      f.Wears 1 ({ f with inLine := rest }.add (w.run net s).2) := by
  have ready := timely.ready w (by simp [first])
  have others : ∀ w ∈ rest, w.Ready s.now := fun w among => timely.ready w (by simp [first, among])
  have size : f.depth = ((rest ++ f.waiting).map fun w => w.asksLeft + 1).sum + (w.asksLeft + 1) ∧
      f.waits = ((rest ++ f.waiting).map fun w => waitsLeft w.slots).sum + waitsLeft w.slots := by
    rw [depth_eq, waits, first]
    simp [Nat.add_comm]
  cases task : (w.run net s).2 with
  | finished a =>
    refine ⟨⟨others, timely.timed⟩, .inl ?_⟩
    rw [depth_eq, size.1]
    exact Nat.lt_add_of_pos_right (Nat.succ_pos _)
  | waiting w' =>
    obtain ⟨set, worn⟩ := Waiting.run_wears ready task
    refine ⟨⟨others, fun v among => ?_⟩, ?_⟩
    · rcases List.mem_append.mp among with before | this
      · exact timely.timed v before
      · obtain rfl := List.mem_singleton.mp this
        exact set
    · rw [Wears, depth_eq, waits, size.1, size.2, add]
      simp only [← List.append_assoc, List.map_append, List.sum_append, List.map_cons, List.map_nil,
        List.sum_cons, List.sum_nil]
      omega

theorem clock_run (net : Network σ) (count : Nat) (f : Fleet α) (s : Scene σ) :
    (f.run net count s).1.clock = s.clock := by
  induction count generalizing f s with
  | zero => rfl
  | succ count ih =>
    rw [Fleet.run]
    cases f.inLine with
    | nil => rfl
    | cons w rest => exact (ih _ _).trans (w.clock_run s)

theorem now_run (net : Network σ) (count dropped : Nat) (f : Fleet α) (s : Scene σ) :
    (f.run net count { s with dropped := dropped }).1.now = s.now :=
  congrArg Prod.fst (clock_run net count f { s with dropped := dropped })

/-- Some turns of the line. -/
theorem Timely.run (net : Network σ) (count : Nat) (timely : f.Timely s.now) :
    (f.run net count s).2.Timely s.now ∧
      f.Wears (min count f.inLine.length) (f.run net count s).2 := by
  induction count generalizing f s with
  | zero => exact ⟨timely, by rw [Nat.zero_min]; exact .refl f⟩
  | succ count ih =>
    rw [Fleet.run]
    cases first : f.inLine with
    | nil => exact ⟨timely, by rw [List.length_nil, Nat.min_zero]; exact .refl f⟩
    | cons w rest =>
      obtain ⟨still, wears⟩ := timely.next net first
      rw [← w.now_run net s] at still
      obtain ⟨after, wears'⟩ := ih still
      have line : ({ f with inLine := rest }.add (w.run net s).2).inLine = rest := by
        cases (w.run net s).2 <;> rfl
      rw [line] at wears'
      rw [w.now_run] at after
      refine ⟨after, ?_⟩
      rw [List.length_cons, Nat.add_min_add_right, Nat.add_comm (min _ _)]
      exact wears.trans wears'

/-! ### What happens next -/

theorem perm_wake (f : Fleet α) (time : Nat) :
    ((f.wake time).inLine ++ (f.wake time).waiting).Perm (f.inLine ++ f.waiting) := by
  rw [wake, List.append_assoc]
  exact (((List.mergeSort_perm _ _).append_right _).trans
    (List.filter_append_perm _ _)).append_left _

theorem mem_wake_inLine {w : Waiting α} {time : Nat} :
    w ∈ (f.wake time).inLine ↔ w ∈ f.inLine ∨ w ∈ f.waiting ∧ w.isDue time := by
  rw [wake, List.mem_append, List.mem_mergeSort, List.mem_filter]

/-- Everybody who waits for a timer is in line when it is due. -/
theorem Timely.wake (timely : f.Timely now) (time : Nat) :
    (f.wake time).Timely (max now time) ∧ f.Wears 0 (f.wake time) := by
  refine ⟨⟨fun w among => ?_, fun w among => timely.timed w (List.mem_of_mem_filter among)⟩,
    .inr ⟨?_, ?_⟩⟩
  · have later {time' : Nat} (h : w.isDue time') (le : time' ≤ max now time) :
        w.isDue (max now time) := by
      obtain ⟨t, set, due⟩ := Waiting.isDue_iff.mp h
      exact Waiting.isDue_iff.mpr ⟨t, set, due.trans le⟩
    rcases mem_wake_inLine.mp among with before | ⟨-, due⟩
    · exact (timely.ready w before).imp_right fun due => later due (le_max_left ..)
    · exact .inr (later due (le_max_right ..))
  · rw [depth_eq, depth_eq]
    exact ((f.perm_wake time).map _).sum_eq
  · rw [waits, waits, Nat.add_zero]
    exact (((f.perm_wake time).map _).sum_eq).le

theorem exists_isDue_of_nextTime? {time : Nat} (next : f.nextTime? = some time) :
    ∃ w ∈ f.waiting, w.isDue time := by
  obtain ⟨t, among, rfl⟩ := List.mem_map.mp (List.min?_mem next)
  obtain ⟨_, set, among⟩ := List.mem_flatten.mp among
  obtain ⟨w, waits, rfl⟩ := List.mem_map.mp set
  exact ⟨w, waits, Waiting.isDue_iff.mpr ⟨t, among, le_rfl⟩⟩

/-- As long as somebody waits there is a next timer. -/
theorem Timely.exists_nextTime? (timely : f.Timely now) (waits : f.waiting ≠ []) :
    ∃ time, f.nextTime? = some time := by
  obtain ⟨w, rest, waiting⟩ := List.exists_cons_of_ne_nil waits
  have set := timely.timed w (by simp [waiting])
  refine Option.ne_none_iff_exists'.mp fun none => set ?_
  rw [nextTime?, List.min?_eq_none_iff, List.map_eq_nil_iff, waiting] at none
  exact List.flatten_eq_nil_iff.mp none _ List.mem_cons_self

/-- What happens to a fleet next, and who there is for it. -/
theorem upcoming_eq_running_iff :
    f.upcoming = .running ↔ f.finished = [] ∧ f.inLine ≠ [] := by
  unfold upcoming
  cases f.finished <;> cases f.inLine <;> cases f.nextTime? <;> simp

theorem upcoming_eq_waking_iff {time : Nat} : f.upcoming = .waking time ↔
    f.finished = [] ∧ f.inLine = [] ∧ f.nextTime? = some time := by
  unfold upcoming
  cases f.finished <;> cases f.inLine <;> cases f.nextTime? <;> simp

end Fleet

/-- How far what happens next is from the next turn of a program. -/
def Upcoming.distance : Upcoming → Nat
  | .running => 1
  | .waking _ => 2
  | .collecting => 3

theorem Upcoming.distance_le (u : Upcoming) : u.distance ≤ 3 := by
  cases u <;> simp [distance]

namespace Fleet

variable {f f' : Fleet α} {s s' : Scene σ}

/-- How much can still happen before the programs of a fleet wait less often. -/
def toll (f : Fleet α) (s : Scene σ) : Nat := s.dropped + (3 * f.waits + f.upcoming.distance)

theorem toll_le_patience (f : Fleet α) (s : Scene σ) : f.toll s ≤ f.patience s := by
  rw [toll, patience_eq]
  have near := f.upcoming.distance_le
  omega

theorem Wears.toll_lt {turns : Nat} (h : f.Wears turns f')
    (less : s'.dropped + f'.upcoming.distance < s.dropped + (3 * turns + f.upcoming.distance)) :
    f'.depth < f.depth ∨ f'.depth = f.depth ∧ f'.toll s' < f.toll s := by
  refine h.imp_right fun ⟨same, worn⟩ => ⟨same, ?_⟩
  rw [toll, toll]
  omega

/-- Some turns of the line, unless there is only room for programs that were dropped. -/
theorem Timely.turns {count dropped : Nat} (timely : f.Timely s.now)
    (running : f.upcoming = .running)
    (room : dropped < s.dropped ∨ dropped ≤ s.dropped ∧ 0 < count)
    (turns : f.run net count { s with dropped := dropped } = (s', f')) :
    f'.Timely s'.now ∧ (f'.depth < f.depth ∨ f'.depth = f.depth ∧ f'.toll s' < f.toll s) := by
  have same := clock_run net count f { s with dropped := dropped }
  obtain ⟨after, wears⟩ :=
    Timely.run net (s := { s with dropped := dropped }) count timely
  rw [turns] at same after wears
  obtain ⟨now, still⟩ := Prod.mk.inj same
  refine ⟨by rwa [now], ?_⟩
  cases count with
  | zero =>
    -- all the room there was went to programs that were dropped, of which fewer are left
    obtain ⟨rfl, rfl⟩ := Prod.mk.inj turns
    exact (Wears.refl f).toll_lt (by simpa using room)
  | succ count =>
    have someone := List.length_pos_iff.mpr (upcoming_eq_running_iff.mp running).2
    have near := f'.upcoming.distance_le
    refine wears.toll_lt ?_
    dsimp only at still ⊢
    rw [running, Upcoming.distance]
    omega

/-- What happens next to a fleet brings it nearer to its end. -/
theorem Timely.proceed {post : Post} (timely : f.Timely s.now)
    (proceeds : f.proceed? net post s = some (s', f')) :
    f'.Timely s'.now ∧ (f'.depth < f.depth ∨ f'.depth = f.depth ∧ f'.toll s' < f.toll s) := by
  unfold proceed? at proceeds
  split at proceeds
  · cases proceeds
  · next running =>
      obtain ⟨rfl, rfl⟩ := Prod.mk.inj (Option.some.inj proceeds)
      have someone := List.length_pos_iff.mpr (upcoming_eq_running_iff.mp running).2
      cases post with
      | background => exact timely.turns running (.inr ⟨Nat.zero_le _, someone⟩) rfl
      | foreground => exact timely.turns running (by omega) rfl
  · next time waking =>
      obtain ⟨rfl, rfl⟩ := Prod.mk.inj (Option.some.inj proceeds)
      obtain ⟨after, wears⟩ := timely.wake time
      refine ⟨after, wears.toll_lt ?_⟩
      obtain ⟨uncollected, -, next⟩ := upcoming_eq_waking_iff.mp waking
      -- nobody has come through a wait yet, but somebody is in line for it
      obtain ⟨w, waits, due⟩ := exists_isDue_of_nextTime? next
      have running : (f.wake time).upcoming = .running :=
        upcoming_eq_running_iff.mpr ⟨uncollected,
          List.ne_nil_of_mem (mem_wake_inLine.mpr (.inr ⟨waits, due⟩))⟩
      rw [running, waking]
      exact Nat.lt_succ_self _

/-- The clock never moves back. -/
theorem now_le_of_proceed? {post : Post} (proceeds : f.proceed? net post s = some (s', f')) :
    s.now ≤ s'.now := by
  unfold proceed? at proceeds
  split at proceeds
  · cases proceeds
  · obtain ⟨rfl, rfl⟩ := Prod.mk.inj (Option.some.inj proceeds)
    cases post with
    | foreground => exact (now_run net _ _ f s).ge
    | background => exact (now_run net _ _ f s).ge
  · obtain ⟨rfl, rfl⟩ := Prod.mk.inj (Option.some.inj proceeds)
    exact le_max_left ..

/-- When results have been collected and somebody is left, the others go on. -/
theorem Timely.collect (timely : f.Timely s.now) (undone : f.isDone = false) :
    ({ f with finished := [] } : Fleet α).Timely s.now ∧
      ({ f with finished := [] } : Fleet α).upcoming.distance < Upcoming.collecting.distance := by
  refine ⟨⟨timely.ready, timely.timed⟩, ?_⟩
  cases line : f.inLine with
  | cons w rest =>
    rw [upcoming_eq_running_iff.mpr ⟨rfl, List.cons_ne_nil w rest⟩]
    decide
  | nil =>
    have waits : f.waiting ≠ [] := by
      intro none
      simp [isDone, line, none] at undone
    obtain ⟨time, next⟩ := timely.exists_nextTime? waits
    have waking : ({ f with inLine := [], finished := [] } : Fleet α).upcoming = .waking time :=
      upcoming_eq_waking_iff.mpr ⟨rfl, rfl, next⟩
    rw [waking]
    exact Nat.lt_succ_self _

theorem timely_launch {n : Nat} (programs : List (Program α n)) (now : Nat) :
    (launch programs).Timely now := by
  refine ⟨fun w among => ?_, by simp [launch]⟩
  obtain ⟨p, -, rfl⟩ := List.mem_map.mp among
  exact Waiting.ready_ofProgram p now

theorem depth_launch {n : Nat} (programs : List (Program α n)) :
    (launch programs).depth = programs.length * (n + 1) := by
  simp [depth_eq, launch, Waiting.ofProgram, Function.comp_def]

end Fleet

/-! ### Blocks -/

namespace Flight

variable {traders : List Trader} {post : Post} {f : Flight} {s : Scene σ}

/-- Whoever is in line is brought on by its turn, and whoever waits has a timer set. -/
def Timely (s : Scene σ) : Flight → Prop
  | .refreshing _ fleet _ => fleet.Timely s.now
  | .trading _ _ fleet _ => fleet.Timely s.now

/-- How much can still happen before a block waits less often. -/
def toll (s : Scene σ) : Flight → Nat
  | .refreshing _ fleet _ => fleet.toll s
  | .trading _ _ fleet _ => fleet.toll s

theorem toll_le_patience (f : Flight) (s : Scene σ) : f.toll s ≤ f.patience s := by
  cases f <;> exact Fleet.toll_le_patience _ s

theorem toll_pos (f : Flight) (s : Scene σ) : 0 < f.toll s := by
  have far (u : Upcoming) : 0 < u.distance := by cases u <;> simp [Upcoming.distance]
  cases f with
  | refreshing height fleet refreshed => exact Nat.add_pos_right _ (Nat.add_pos_right _ (far _))
  | trading height refreshed fleet outcomes =>
    exact Nat.add_pos_right _ (Nat.add_pos_right _ (far _))

theorem timely_launch (height : Nat) (targets : List OrderBookAddress) (s : Scene σ) :
    (launch height targets).Timely s := Fleet.timely_launch _ s.now

/-- After a step a block waits less often than before, or less can still happen before it does. -/
def Wears (traders : List Trader) (f f' : Flight) (s s' : Scene σ) : Prop :=
  f'.depth traders < f.depth traders ∨ f'.depth traders = f.depth traders ∧ f'.toll s' < f.toll s

theorem upcoming_eq_collecting {fleet : Fleet α} (h : fleet.proceed? net post s = none) :
    fleet.upcoming = .collecting := by
  unfold Fleet.proceed? at h
  split at h
  · assumption
  · cases h
  · cases h

/-- What happens next to a block brings it nearer to its end. -/
theorem step_wears (timely : f.Timely s) {s' : Scene σ} {f' : Flight}
    (step : f.step net traders post s = (s', .going f')) :
    f'.Timely s' ∧ f.Wears traders f' s s' := by
  cases f with
  | refreshing height fleet refreshed =>
    rw [Flight.step] at step
    split at step
    · next proceeds =>
        obtain ⟨rfl, ⟨⟩⟩ := Prod.mk.inj step
        obtain ⟨after, wears⟩ := Fleet.Timely.proceed timely proceeds
        refine ⟨after, wears.imp (fun less => ?_) (And.imp_left fun same => ?_)⟩
        · exact Nat.add_lt_add_right (Nat.add_lt_add_right less _) 1
        · rw [depth, depth, same]
    · next collects =>
        unfold collectLoads at step
        split at step
        · cases (Prod.mk.inj step).2
        · split_ifs at step with done <;> obtain ⟨rfl, ⟨⟩⟩ := Prod.mk.inj step
          · -- the cycles begin, and all that they can wait for was counted before
            refine ⟨Fleet.timely_launch _ _, .inl ?_⟩
            rw [depth, depth, Fleet.depth_launch, List.length_map]
            omega
          · obtain ⟨after, nearer⟩ :=
              Fleet.Timely.collect timely (Bool.eq_false_of_not_eq_true done)
            refine ⟨after, .inr ⟨rfl, ?_⟩⟩
            rw [← upcoming_eq_collecting collects] at nearer
            exact Nat.add_lt_add_left (Nat.add_lt_add_left nearer _) _
  | trading height refreshed fleet outcomes =>
    rw [Flight.step] at step
    split at step
    · next proceeds =>
        obtain ⟨rfl, ⟨⟩⟩ := Prod.mk.inj step
        exact Fleet.Timely.proceed timely proceeds
    · next collects =>
        unfold collectOutcomes at step
        split at step
        · cases (Prod.mk.inj step).2
        · dsimp only at step
          split_ifs at step with done <;> obtain ⟨rfl, ⟨⟩⟩ := Prod.mk.inj step
          obtain ⟨after, nearer⟩ := Fleet.Timely.collect timely (Bool.eq_false_of_not_eq_true done)
          refine ⟨after, .inr ⟨rfl, ?_⟩⟩
          rw [← upcoming_eq_collecting collects] at nearer
          exact Nat.add_lt_add_left (Nat.add_lt_add_left nearer _) _

end Flight

theorem Fleet.now_of_proceed? {fleet fleet' : Fleet α} {post : Post} {s s' : Scene σ}
    (proceeds : fleet.proceed? net post s = some (s', fleet'))
    (going : ∀ time, fleet.upcoming ≠ .waking time) : s'.now = s.now := by
  unfold Fleet.proceed? at proceeds
  split at proceeds
  · cases proceeds
  · obtain ⟨rfl, rfl⟩ := Prod.mk.inj (Option.some.inj proceeds)
    cases post with
    | foreground => exact Fleet.now_run net _ _ fleet s
    | background => exact Fleet.now_run net _ _ fleet s
  · next time waking => exact absurd waking (going time)

/-- The clock moves only when a block waits. -/
theorem Flight.now_step (net : Network σ) (traders : List Trader) (post : Post) {f : Flight}
    {s : Scene σ} (going : f.isWaiting = false) : (f.step net traders post s).1.now = s.now := by
  have moving : ∀ time, f.upcoming ≠ .waking time := by
    intro time waking
    rw [isWaiting, waking] at going
    cases going
  cases f with
  | refreshing height fleet refreshed =>
    rw [Flight.step]
    cases next : fleet.proceed? net post s with
    | some r => exact Fleet.now_of_proceed? next moving
    | none =>
      dsimp only
      rw [collectLoads]
      split
      · cases post <;> rfl
      · dsimp only
        split_ifs <;> rfl
  | trading height refreshed fleet outcomes =>
    rw [Flight.step]
    cases next : fleet.proceed? net post s with
    | some r => exact Fleet.now_of_proceed? next moving
    | none =>
      dsimp only
      rw [collectOutcomes]
      split
      · cases post <;> rfl
      · dsimp only
        split_ifs <;> rfl

/-- A block goes on as one thing says, or has ended as another one says. -/
def Progress.Meets (Goes : Flight → Scene σ → Prop) (Ends : Except Abort Report → Scene σ → Prop)
    (r : Scene σ × Progress) : Prop :=
  match r.2 with
  | .going f => Goes f r.1
  | .ended report => Ends report r.1

theorem Progress.Meets.imp {Goes Goes' : Flight → Scene σ → Prop}
    {Ends : Except Abort Report → Scene σ → Prop} {r : Scene σ × Progress} (h : Meets Goes Ends r)
    (weaker : ∀ f s, Goes f s → Goes' f s) : Meets Goes' Ends r := by
  obtain ⟨s, f | report⟩ := r
  · exact weaker f s h
  · exact h

namespace Flight

section Running

variable {traders : List Trader} {post : Post} {stop : Flight → Bool}
  {Goes : Flight → Scene σ → Prop} {Ends : Except Abort Report → Scene σ → Prop}

theorem stepsUntil_comes
    (preserved : ∀ f s, Goes f s → stop f = false →
      Progress.Meets Goes Ends (f.step net traders post s))
    {next : Flight → Scene σ → Scene σ × Progress} {depth : Nat}
    (comes : ∀ f s, f.Timely s → Goes f s → f.depth traders < depth →
      Progress.Meets (fun f s => Goes f s ∧ stop f) Ends (next f s))
    {steps : Nat} {f : Flight} {s : Scene σ} (timely : f.Timely s) (goes : Goes f s)
    (deep : f.depth traders ≤ depth) (enough : f.toll s ≤ steps) :
    Progress.Meets (fun f s => Goes f s ∧ stop f) Ends
      (f.stepsUntil net traders post stop next depth steps s) := by
  induction steps generalizing f s with
  | zero => exact absurd (f.toll_pos s) (Nat.not_lt.mpr enough)
  | succ steps ih =>
    rw [stepsUntil]
    split_ifs with stopped
    · exact ⟨goes, stopped⟩
    · have meets := preserved f s goes (Bool.eq_false_of_not_eq_true stopped)
      rcases step : f.step net traders post s with ⟨s', f' | r⟩ <;> rw [step] at meets
      · obtain ⟨after, wears⟩ := step_wears timely step
        dsimp only
        split_ifs with less
        · exact comes f' s' after meets less
        · -- the block can wait as often as before, so the steps that are left are enough
          obtain ⟨same, fewer⟩ := wears.resolve_left fun shallower => less (shallower.trans_le deep)
          exact ih after meets (same.trans_le deep) (Nat.lt_succ_iff.mp (fewer.trans_le enough))
      · exact meets

theorem roundsUntil_comes
    (preserved : ∀ f s, Goes f s → stop f = false →
      Progress.Meets Goes Ends (f.step net traders post s))
    {rounds : Nat} {f : Flight} {s : Scene σ} (timely : f.Timely s) (goes : Goes f s)
    (deep : f.depth traders ≤ rounds) :
    Progress.Meets (fun f s => Goes f s ∧ stop f) Ends
      (f.roundsUntil net traders post stop rounds s) := by
  induction rounds generalizing f s with
  | zero =>
    exact stepsUntil_comes preserved (fun f s _ _ less => absurd less (Nat.not_lt_zero _)) timely
      goes deep (f.toll_le_patience s)
  | succ rounds ih =>
    exact stepsUntil_comes preserved
      (fun f' s' timely' goes' less => ih timely' goes' (Nat.lt_succ_iff.mp (less.trans_le deep)))
      timely goes le_rfl (f.toll_le_patience s)

/-- A block comes to its end or to the point where it is stopped, and what all steps preserve holds
there. -/
theorem runUntil_comes (stop : Flight → Bool)
    (preserved : ∀ f s, Goes f s → stop f = false →
      Progress.Meets Goes Ends (f.step net traders post s))
    {f : Flight} {s : Scene σ} (timely : f.Timely s) (goes : Goes f s) :
    Progress.Meets (fun f s => Goes f s ∧ stop f) Ends (f.runUntil net traders post stop s) :=
  roundsUntil_comes preserved timely goes le_rfl

end Running

end Flight

end CrossBook.Engine
