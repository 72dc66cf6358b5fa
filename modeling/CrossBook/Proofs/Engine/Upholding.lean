import CrossBook.Proofs.Engine.Attempts
import CrossBook.Proofs.Engine.Contract
import CrossBook.Proofs.Engine.Solos

/-!
# Programs whose calls fail as calls do

A call to the venue or the chain fails because it was made in vain, or because what came back could
not be read. A program that upholds an invariant of the stores, and ends with a value of some kind
whenever its calls fail in no other way, does so in every run and in every fleet, whatever else
upholds the invariant beside it. Runs serve what is said of one program, and fleets what is said of
the histories of a session.

## Main definitions

* `Engine.Error.Plain` — the failures of calls; `Exchange.Plain`, `Network.Plain` — no others occur
* `Engine.Program.Upholds` — a program upholds an invariant and ends with a value of some kind
* `Engine.Fleet.Upholds` — so do all programs of a fleet

## Main results

* `Engine.Program.Upholds.of_runs` — so it is in every run of a program
* `Engine.Waiting.Upholds.run` — so it is after every turn of a program
* `Engine.Fleet.Upholds.proceed` — so it is when a fleet goes on
-/

namespace CrossBook

/-- A failure of a call to the venue or the chain. -/
inductive Error.Plain : Error → Prop where
  | execution (e : ExecutionError) : Plain (.execution e)
  | json : Plain .json

theorem Error.Plain.severity_eq {e : Error} (h : e.Plain) : e.severity = .transient := by
  cases h <;> rfl

namespace Engine

variable {σ α β : Type}

/-! ### What becomes of calls -/

/-- A call that succeeds, or fails as calls do. -/
def Call.Result.Plain (c : Call) (r : c.Result) : Prop := ∀ e, r = .error e → e.Plain

/-- Of calls that were waited for, those that failed did so as calls do. -/
def Joined.Plain {calls : List Call} : (joining : Joining) → Joined joining calls → Prop
  | .untilFailure, answer => ∀ e : Error, answer = .error e → e.Plain
  | .untilAll, results => Answers.All Call.Result.Plain results

/-- The calls of an exchange fail as calls do, if they fail. -/
def Exchange.Plain (e : Exchange) : Prop := e.answer.Plain e.joining

/-- All calls to a network fail as calls do, if they fail. -/
def Network.Plain (net : Network σ) : Prop := ∀ c w, Call.Result.Plain c (net.answer c w).2

/-! ### Programs -/

section Program

/-- A program upholds an invariant of the stores and ends with a value of some kind, if its calls
fail as calls do and the invariant is upheld while it waits. -/
def Program.Upholds (Inv : Stores → Prop) (Kind : α → Prop) : {n : Nat} → Program α n → Prop
  | _, .done a => Kind a
  | _, .look k => ∀ s, Inv s → (k s).Upholds Inv Kind
  | _, .change f next => (∀ s, Inv s → Inv (f s)) ∧ next.Upholds Inv Kind
  | _, .ask _ joining k => ∀ answer, answer.Plain joining → (k answer).Upholds Inv Kind

variable {Inv : Stores → Prop} {Kind : α → Prop} {Kind' : β → Prop} {n : Nat} {p : Program α n}

namespace Program

theorem upholds_look_iff {k : Stores → Program α n} :
    (Program.look k).Upholds Inv Kind ↔ ∀ s, Inv s → (k s).Upholds Inv Kind := Iff.rfl

theorem upholds_change_iff {f : Stores → Stores} :
    (Program.change f p).Upholds Inv Kind ↔
      (∀ s, Inv s → Inv (f s)) ∧ p.Upholds Inv Kind := Iff.rfl

theorem upholds_ask_iff {calls : List Call} {joining : Joining}
    {k : Joined joining calls → Program α n} : (Program.ask calls joining k).Upholds Inv Kind ↔
      ∀ answer, answer.Plain joining → (k answer).Upholds Inv Kind := Iff.rfl

theorem upholds_call_iff {c : Call} {k : c.Result → Program α n} :
    (Program.call c k).Upholds Inv Kind ↔
      ∀ r, Call.Result.Plain c r → (k r).Upholds Inv Kind := by
  rw [call, upholds_ask_iff]
  constructor
  · exact fun upholds r plain => upholds (.cons r .nil) ⟨plain, trivial⟩
  · rintro upholds (_ | ⟨r, _ | _⟩) plain
    exact upholds r plain.1

/-- The next program upholds the invariant when the first one ends with a value of its kind. -/
theorem Upholds.andThen {next : α → (m : Nat) → Program β m} (h : p.Upholds Inv Kind)
    (rest : ∀ a m, Kind a → (next a m).Upholds Inv Kind') :
    (p.andThen next).Upholds Inv Kind' := by
  induction p with
  | done a => exact rest a _ h
  | look k ih => exact fun s holds => ih s (h s holds)
  | change f p ih => exact ⟨h.1, ih h.2⟩
  | ask calls joining k ih => exact fun answer plain => ih answer (h answer plain)

theorem upholds_map {f : α → β} :
    (p.map f).Upholds Inv Kind' ↔ p.Upholds Inv fun a => Kind' (f a) := by
  induction p with
  | done a => exact Iff.rfl
  | look k ih => exact forall_congr' fun s => imp_congr Iff.rfl (ih s)
  | change g p ih => exact and_congr Iff.rfl ih
  | ask calls joining k ih => exact forall_congr' fun answer => imp_congr Iff.rfl (ih answer)

/-- In a run whose calls fail as calls do the invariant is upheld, and the value is of the kind. -/
theorem Upholds.of_runs {surroundings : Surroundings} {s s' : Stores} {trace : List Exchange}
    {a : α} (h : p.Upholds Inv Kind) (run : p.Runs surroundings s trace a s')
    (meanwhile : ∀ s s', surroundings.Meanwhile s s' → Inv s → Inv s')
    (plain : ∀ e ∈ trace, e.Plain) (holds : Inv s) : Kind a ∧ Inv s' := by
  induction run with
  | done a s => exact ⟨h, holds⟩
  | look _ ih => exact ih (h _ holds) plain holds
  | change _ ih => exact ih h.2 plain (h.1 _ holds)
  | ask e _ beside _ ih =>
    exact ih (h e.answer (plain e List.mem_cons_self))
      (fun e' among => plain e' (List.mem_cons_of_mem _ among)) (meanwhile _ _ beside holds)

end Program

end Program

/-! ### Calls in time -/

/-- A call that was made waits, or has come to something plain. -/
def Slot.Plain (c : Call) : Slot c → Prop
  | .answered r => Call.Result.Plain c r
  | .waiting _ _ _ => True

section Network

variable {net : Network σ} {c : Call} {calls : List Call}

namespace Network

/-- Meeting a deadline is a way for a call to fail. -/
theorem plain_timeout (net : Network σ) (c : Call) : Call.Result.Plain c (net.timeout c) := by
  intro e failed
  obtain rfl := Except.error.inj failed
  exact .execution _

theorem plain_unlessLate (wait : Timer) (later : List Nat) (deadline : Timer) (now : Nat) :
    (net.unlessLate c wait later deadline now).Plain c := by
  rw [unlessLate]
  split_ifs
  · exact net.plain_timeout c
  · trivial

theorem Plain.begin (plain : net.Plain) (c : Call) (s : Scene σ) : (net.begin c s).2.Plain c := by
  rw [Network.begin]
  cases c.known? with
  | some a =>
    intro e failed
    cases failed
  | none =>
    dsimp only
    cases (net.waits c s.world).filter (· ≠ 0) with
    | nil => exact plain c s.world
    | cons first later =>
      dsimp only
      split_ifs
      · exact net.plain_timeout c
      · trivial

theorem Plain.look (plain : net.Plain) {slot : Slot c} (h : slot.Plain c) (s : Scene σ) :
    (net.look c slot s).2.Plain c := by
  cases slot with
  | answered r => exact h
  | waiting wait later deadline =>
    unfold Network.look
    dsimp only
    split_ifs
    · cases later with
      | nil => exact plain c s.world
      | cons next later => exact plain_unlessLate _ _ _ _
    · exact plain_unlessLate _ _ _ _

theorem Plain.beginAll (plain : net.Plain) (calls : List Call) (s : Scene σ) :
    (net.beginAll calls s).2.All Slot.Plain := by
  induction calls generalizing s with
  | nil => trivial
  | cons c calls ih => exact ⟨plain.begin c s, ih _⟩

theorem Plain.lookAll (plain : net.Plain) {slots : Answers Slot calls}
    (h : slots.All Slot.Plain) (s : Scene σ) : (net.lookAll slots s).2.All Slot.Plain := by
  induction slots generalizing s with
  | nil => trivial
  | cons slot slots ih => exact ⟨plain.look h.1 s, ih h.2 _⟩

end Network

theorem plain_results? {slots : Answers Slot calls} (h : slots.All Slot.Plain)
    {results : Answers Call.Result calls} (ended : results? slots = some results) :
    results.All Call.Result.Plain := by
  induction slots with
  | nil =>
    obtain rfl := Option.some.inj ended
    trivial
  | cons slot slots ih =>
    cases slot with
    | answered r =>
      obtain ⟨rest, all, rfl⟩ := Option.map_eq_some_iff.mp ended
      exact ⟨h.1, ih h.2 all⟩
    | waiting wait later deadline => cases ended

theorem plain_of_mem_failures {slots : Answers Slot calls} (h : slots.All Slot.Plain) {e : Error}
    (failed : some e ∈ failures slots) : e.Plain := by
  induction slots with
  | nil => cases failed
  | cons slot slots ih =>
    match slot, h, failed with
    | .answered (.error e'), h, failed =>
      rcases List.mem_cons.mp failed with same | failed
      · exact h.1 e (congrArg Except.error (Option.some.inj same).symm)
      · exact ih h.2 failed
    | .answered (.ok a), h, failed =>
      exact ih h.2 ((List.mem_cons.mp failed).resolve_left nofun)
    | .waiting wait later deadline, h, failed =>
      exact ih h.2 ((List.mem_cons.mp failed).resolve_left nofun)

theorem plain_failure? {slots : Answers Slot calls} (h : slots.All Slot.Plain) {looks : Nat}
    {e : Error} (failed : failure? looks slots = some e) : e.Plain := by
  rw [failure?, List.findSome?_eq_some_iff] at failed
  obtain ⟨before, _, after, split, rfl, -⟩ := failed
  refine plain_of_mem_failures h ?_
  have among : some e ∈ List.append _ _ := split ▸ List.mem_append_right before List.mem_cons_self
  rcases List.mem_append.mp among with dropped | taken
  · exact List.mem_of_mem_drop dropped
  · exact List.mem_of_mem_take taken

/-- What waiting for plain calls comes to is plain. -/
theorem plain_joined? {slots : Answers Slot calls} (h : slots.All Slot.Plain) {looks : Nat}
    {joining : Joining} {answer : Joined joining calls}
    (joined : joined? looks slots joining = some answer) : answer.Plain joining := by
  cases joining with
  | untilAll => exact plain_results? h joined
  | untilFailure =>
    rw [joined?] at joined
    cases failed : failure? looks slots with
    | some e =>
      simp only [failed] at joined
      obtain rfl := Option.some.inj joined
      intro e' same
      obtain rfl := Except.error.inj same
      exact plain_failure? h failed
    | none =>
      simp only [failed] at joined
      obtain ⟨replies, -, rfl⟩ := Option.map_eq_some_iff.mp joined
      intro e same
      cases same

end Network

/-! ### Turns -/

section Turns

variable {net : Network σ} {Inv : Stores → Prop} {Kind : α → Prop} {n : Nat} {s : Scene σ}

/-- A program that waits for plain calls will uphold the invariant. -/
structure Waiting.Upholds (Inv : Stores → Prop) (Kind : α → Prop) (w : Waiting α) : Prop where
  plain : w.slots.All Slot.Plain
  resume : ∀ answer, answer.Plain w.joining → (w.resume answer).Upholds Inv Kind

theorem Waiting.upholds_ofProgram {p : Program α n} (h : p.Upholds Inv Kind) :
    (ofProgram p).Upholds Inv Kind :=
  ⟨trivial, fun _ _ => h⟩

/-- A program that waits upholds the invariant, or one that has ended did so with a value of the
kind. -/
def Task.Upholds (Inv : Stores → Prop) (Kind : α → Prop) : Task α → Prop
  | .waiting w => w.Upholds Inv Kind
  | .finished a => Kind a

theorem Program.Upholds.advance (plain : net.Plain) {p : Program α n} (h : p.Upholds Inv Kind)
    (holds : Inv s.stores) : Inv (advance net p s).1.stores ∧
      (Engine.advance net p s).2.Upholds Inv Kind := by
  induction p generalizing s with
  | done a => exact ⟨holds, h⟩
  | look k ih => exact ih s.stores (h s.stores holds) holds
  | change f next ih => exact ih h.2 (h.1 s.stores holds)
  | ask calls joining k ih =>
    have begun := plain.beginAll calls s
    have same := net.stores_beginAll calls s
    rw [Engine.advance]
    cases joined : joined? 0 (net.beginAll calls s).2 joining with
    | some answer =>
      simp only [joined]
      exact ih answer (h answer (plain_joined? begun joined)) (by rwa [same])
    | none =>
      simp only [joined]
      exact ⟨by rwa [same], begun, h⟩

theorem Waiting.Upholds.run (plain : net.Plain) {w : Waiting α} (h : w.Upholds Inv Kind)
    (holds : Inv s.stores) : Inv (w.run net s).1.stores ∧ (w.run net s).2.Upholds Inv Kind := by
  have looked := plain.lookAll h.plain s
  have same := net.stores_lookAll w.slots s
  rw [Waiting.run]
  cases joined : joined? w.looks (net.lookAll w.slots s).2 w.joining with
  | some answer =>
    simp only [joined]
    exact (h.resume answer (plain_joined? looked joined)).advance plain (by rwa [same])
  | none =>
    simp only [joined]
    exact ⟨by rwa [same], looked, h.resume⟩

/-- All programs of a fleet uphold the invariant, and those that have ended did so with values of
the kind. -/
structure Fleet.Upholds (Inv : Stores → Prop) (Kind : α → Prop) (f : Fleet α) : Prop where
  inLine : ∀ w ∈ f.inLine, w.Upholds Inv Kind
  waiting : ∀ w ∈ f.waiting, w.Upholds Inv Kind
  finished : ∀ a ∈ f.finished, Kind a

namespace Fleet

variable {f : Fleet α}

theorem upholds_launch {programs : List (Program α n)}
    (h : ∀ p ∈ programs, p.Upholds Inv Kind) : (launch programs).Upholds Inv Kind where
  inLine := List.forall_mem_map.mpr fun p among => Waiting.upholds_ofProgram (h p among)
  waiting := List.forall_mem_nil _
  finished := List.forall_mem_nil _

theorem Upholds.add (h : f.Upholds Inv Kind) {task : Task α} (upholds : task.Upholds Inv Kind) :
    (f.add task).Upholds Inv Kind := by
  cases task with
  | waiting w =>
    have last : ∀ w' ∈ [w], w'.Upholds Inv Kind := List.forall_mem_singleton.mpr upholds
    exact ⟨h.inLine, List.forall_mem_append.mpr ⟨h.waiting, last⟩, h.finished⟩
  | finished a =>
    have last : ∀ b ∈ [a], Kind b := List.forall_mem_singleton.mpr upholds
    exact ⟨h.inLine, h.waiting, List.forall_mem_append.mpr ⟨h.finished, last⟩⟩

theorem Upholds.run (plain : net.Plain) (count : Nat) (h : f.Upholds Inv Kind)
    (holds : Inv s.stores) :
    Inv (f.run net count s).1.stores ∧ (f.run net count s).2.Upholds Inv Kind := by
  induction count generalizing f s with
  | zero => exact ⟨holds, h⟩
  | succ count ih =>
    rw [Fleet.run]
    cases line : f.inLine with
    | nil => exact ⟨holds, h⟩
    | cons w rest =>
      obtain ⟨first, others⟩ := List.forall_mem_cons.mp (line ▸ h.inLine)
      obtain ⟨after, upholds⟩ := first.run plain holds
      have left : Fleet.Upholds Inv Kind { f with inLine := rest } :=
        ⟨others, h.waiting, h.finished⟩
      exact ih (left.add upholds) after

theorem Upholds.wake (time : Nat) (h : f.Upholds Inv Kind) : (f.wake time).Upholds Inv Kind where
  inLine := by
    refine List.forall_mem_append.mpr ⟨h.inLine, fun w among => h.waiting w ?_⟩
    exact (List.mem_filter.mp (List.mem_mergeSort.mp among)).1
  waiting w among := h.waiting w (List.mem_filter.mp among).1
  finished := h.finished

/-- A fleet upholds the invariant until results are to be collected. -/
theorem Upholds.proceed (plain : net.Plain) {post : Post} {s' : Scene σ} {f' : Fleet α}
    (h : f.Upholds Inv Kind) (holds : Inv s.stores)
    (proceeds : f.proceed? net post s = some (s', f')) :
    Inv s'.stores ∧ f'.Upholds Inv Kind := by
  unfold proceed? at proceeds
  split at proceeds
  · cases proceeds
  · obtain ⟨rfl, rfl⟩ := Prod.mk.inj (Option.some.inj proceeds)
    cases post.room with
    | none => exact Upholds.run (s := { s with dropped := 0 }) plain _ h holds
    | some n => exact Upholds.run (s := { s with dropped := s.dropped - n }) plain _ h holds
  · obtain ⟨rfl, rfl⟩ := Prod.mk.inj (Option.some.inj proceeds)
    exact ⟨holds, h.wake _⟩

theorem Upholds.collect (h : f.Upholds Inv Kind) :
    ({ f with finished := [] } : Fleet α).Upholds Inv Kind :=
  ⟨h.inLine, h.waiting, List.forall_mem_nil _⟩

end Fleet

end Turns

end Engine

end CrossBook
