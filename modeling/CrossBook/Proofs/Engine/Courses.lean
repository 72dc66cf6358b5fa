import CrossBook.Proofs.Engine.Contract

/-!
# Courses of programs

The course of a program is what it has done from its beginning to where it is now: it has ended, or
it waits. The course of a program that has ended is a run. A program of a fleet goes on with its
course whenever its turn comes, and while others have theirs its course is still the same.

## Main definitions

* `Engine.Program.Leads` — the courses of a program, with their traces
* `Engine.Waiting.map`, `Engine.Task.map` — a task with its value changed

## Main results

* `Engine.Program.leads_finished_iff` — the courses that have ended are the runs
* `Engine.Program.Leads.run` — a program that has its turn goes on with its course
* `Engine.Program.Leads.of_map` — the course of a program whose value is changed in the end
-/

namespace CrossBook.Engine

variable {σ α β : Type}

/-- A program leads from some stores to a task and some stores: it has ended, or it waits, whatever
has become of the calls it waits for. -/
inductive Program.Leads (surroundings : Surroundings) :
    {n : Nat} → Program α n → Stores → List Exchange → Task α → Stores → Prop where
  | done {n : Nat} (a : α) (s : Stores) :
      Leads surroundings (.done (n := n) a) s [] (.finished a) s
  | look {n : Nat} {k : Stores → Program α n} {s s' : Stores} {trace : List Exchange}
      {task : Task α} (rest : Leads surroundings (k s) s trace task s') :
      Leads surroundings (.look k) s trace task s'
  | change {n : Nat} {f : Stores → Stores} {next : Program α n} {s s' : Stores}
      {trace : List Exchange} {task : Task α}
      (rest : Leads surroundings next (f s) trace task s') :
      Leads surroundings (.change f next) s trace task s'
  | waits {n : Nat} {calls : List Call} {joining : Joining}
      {k : Joined joining calls → Program α n} {s s' : Stores} (slots : Answers Slot calls)
      (looks : Nat) (meanwhile : surroundings.Meanwhile s s') :
      Leads surroundings (.ask calls joining k) s []
        (.waiting ⟨n, calls, joining, slots, looks, k⟩) s'
  | ask {n : Nat} (e : Exchange) {k : Joined e.joining e.calls → Program α n} {s s₁ s' : Stores}
      {trace : List Exchange} {task : Task α} (possible : e.Possible surroundings)
      (meanwhile : surroundings.Meanwhile s s₁)
      (rest : Leads surroundings (k e.answer) s₁ trace task s') :
      Leads surroundings (.ask e.calls e.joining k) s (e :: trace) task s'

/-- Nothing may happen beside a program, what happens there adds up, and no call has to reach
anybody. -/
structure Surroundings.Lenient (surroundings : Surroundings) : Prop where
  refl : ∀ s, surroundings.Meanwhile s s
  trans : ∀ s s' s'', surroundings.Meanwhile s s' → surroundings.Meanwhile s' s'' →
    surroundings.Meanwhile s s''
  slow : ∀ c, ¬ surroundings.Prompt c

/-- In lenient surroundings anything may become of a call without its reaching anybody. -/
theorem Surroundings.Lenient.possible {surroundings : Surroundings} (lenient : surroundings.Lenient)
    {calls : List Call} {joining : Joining} (answer : Joined joining calls) :
    Exchange.Possible surroundings ⟨calls, joining, answer, []⟩ where
  once _ := Nat.zero_le _
  prompt c _ prompt := (lenient.slow c prompt).elim

namespace Program

variable {surroundings : Surroundings} {n : Nat} {p : Program α n} {s s' s₁ : Stores}
  {trace rest : List Exchange} {task : Task α} {w : Waiting α} {a : α}

/-! ### By constructors -/

theorem leads_done_iff : (Program.done (n := n) a).Leads surroundings s trace task s' ↔
    trace = [] ∧ task = .finished a ∧ s' = s := by
  constructor
  · rintro ⟨⟩
    exact ⟨rfl, rfl, rfl⟩
  · rintro ⟨rfl, rfl, rfl⟩
    exact .done a _

theorem leads_look_iff {k : Stores → Program α n} :
    (Program.look k).Leads surroundings s trace task s' ↔
      (k s).Leads surroundings s trace task s' := by
  constructor
  · rintro ⟨⟩
    assumption
  · exact .look

theorem leads_change_iff {f : Stores → Stores} {next : Program α n} :
    (Program.change f next).Leads surroundings s trace task s' ↔
      next.Leads surroundings (f s) trace task s' := by
  constructor
  · rintro ⟨⟩
    assumption
  · exact .change

/-- A program that makes calls waits for them, or goes on with what became of them. -/
theorem leads_ask {calls : List Call} {joining : Joining}
    {k : Joined joining calls → Program α n}
    (h : (Program.ask calls joining k).Leads surroundings s trace task s') :
    (∃ w, trace = [] ∧ task = .waiting w ∧ w.calls = calls ∧ surroundings.Meanwhile s s') ∨
      ∃ answer there s₁ rest, trace = ⟨calls, joining, answer, there⟩ :: rest ∧
        surroundings.Meanwhile s s₁ ∧ (k answer).Leads surroundings s₁ rest task s' := by
  rcases h with _ | _ | _ | ⟨slots, looks, meanwhile⟩ | ⟨e, possible, meanwhile, rest⟩
  · exact .inl ⟨_, rfl, rfl, rfl, meanwhile⟩
  · exact .inr ⟨_, _, _, _, rfl, meanwhile, rest⟩

theorem leads_call {c : Call} {k : c.Result → Program α n}
    (h : (Program.call c k).Leads surroundings s trace task s') :
    (∃ w, trace = [] ∧ task = .waiting w ∧ w.calls = [c] ∧ surroundings.Meanwhile s s') ∨
      ∃ (r : c.Result) (there : List Call) (s₁ : Stores) (rest : List Exchange),
        trace = ⟨[c], .untilAll, .cons r .nil, there⟩ :: rest ∧
        surroundings.Meanwhile s s₁ ∧ (k r).Leads surroundings s₁ rest task s' := by
  rcases leads_ask h with waiting | ⟨_ | ⟨r, _ | _⟩, there, s₁, rest, rfl, meanwhile, leads⟩
  · exact .inl waiting
  · exact .inr ⟨r, there, s₁, rest, rfl, meanwhile, leads⟩

/-! ### Courses and runs -/

/-- The courses that have ended are the runs. -/
theorem leads_finished_iff :
    p.Leads surroundings s trace (.finished a) s' ↔ p.Runs surroundings s trace a s' := by
  constructor
  · generalize ended : Task.finished a = task
    intro h
    induction h with
    | done b s =>
      obtain rfl := Task.finished.inj ended
      exact .done a s
    | look _ ih => exact .look (ih ended)
    | change _ ih => exact .change (ih ended)
    | waits => cases ended
    | ask e possible meanwhile _ ih => exact .ask e possible meanwhile (ih ended)
  · intro h
    induction h with
    | done b s => exact .done b s
    | look _ ih => exact .look ih
    | change _ ih => exact .change ih
    | ask e possible meanwhile _ ih => exact .ask e possible meanwhile ih

/-- A program that waits goes on waiting while others have their turns and its calls get on. -/
theorem Leads.wait (lenient : surroundings.Lenient)
    (h : p.Leads surroundings s trace (.waiting w) s₁) (meanwhile : surroundings.Meanwhile s₁ s')
    (slots : Answers Slot w.calls) (looks : Nat) :
    p.Leads surroundings s trace (.waiting { w with slots := slots, looks := looks }) s' := by
  -- By induction on the course: only its last step, where it waits, is another one.
  generalize waits : Task.waiting w = task at h
  induction h with
  | done => cases waits
  | look _ ih => exact .look (ih meanwhile waits)
  | change _ ih => exact .change (ih meanwhile waits)
  | waits _ _ before =>
    obtain rfl := Task.waiting.inj waits
    exact .waits slots looks (lenient.trans _ _ _ before meanwhile)
  | ask e possible before _ ih => exact .ask e possible before (ih meanwhile waits)

/-- A program that waits goes on with its course when its calls have come to something. -/
theorem Leads.resume (h : p.Leads surroundings s trace (.waiting w) s₁)
    {answer : Joined w.joining w.calls} {there : List Call}
    (possible : Exchange.Possible surroundings ⟨w.calls, w.joining, answer, there⟩)
    (leads : (w.resume answer).Leads surroundings s₁ rest task s') :
    p.Leads surroundings s (trace ++ ⟨w.calls, w.joining, answer, there⟩ :: rest) task s' := by
  generalize waits : Task.waiting w = before at h
  induction h with
  | done => cases waits
  | look _ ih => exact .look (ih leads waits)
  | change _ ih => exact .change (ih leads waits)
  | waits slots looks meanwhile =>
    obtain rfl := Task.waiting.inj waits
    exact .ask ⟨_, _, answer, there⟩ possible meanwhile leads
  | ask e possible' meanwhile _ ih => exact .ask e possible' meanwhile (ih leads waits)

/-! ### Turns -/

/-- A program that is advanced leads to where it stops. -/
theorem leads_advance (lenient : surroundings.Lenient) (net : Network σ) (p : Program α n)
    (s : Scene σ) :
    ∃ trace, p.Leads surroundings s.stores trace (advance net p s).2
      (advance net p s).1.stores := by
  induction p generalizing s with
  | done a => exact ⟨[], .done a s.stores⟩
  | look k ih =>
    obtain ⟨trace, leads⟩ := ih s.stores s
    exact ⟨trace, .look leads⟩
  | change f next ih =>
    obtain ⟨trace, leads⟩ := ih { s with stores := f s.stores }
    exact ⟨trace, .change leads⟩
  | ask calls joining k ih =>
    -- Beginning the calls changes no store.
    have same := net.stores_beginAll calls s
    rw [advance]
    cases joined : joined? 0 (net.beginAll calls s).2 joining with
    | some answer =>
      obtain ⟨trace, leads⟩ := ih answer (net.beginAll calls s).1
      rw [same] at leads
      simp only [joined]
      exact ⟨_, .ask ⟨calls, joining, answer, []⟩ (lenient.possible answer) (lenient.refl _) leads⟩
    | none =>
      simp only [joined, same]
      exact ⟨[], .waits _ 1 (lenient.refl _)⟩

/-- A program that has its first turn begins its course. -/
theorem leads_begin (lenient : surroundings.Lenient) (net : Network σ) (p : Program α n)
    (s : Scene σ) :
    ∃ trace, p.Leads surroundings s.stores trace ((Waiting.ofProgram p).run net s).2
      ((Waiting.ofProgram p).run net s).1.stores :=
  leads_advance lenient net p s

/-- A program that has its turn goes on with its course. -/
theorem Leads.run (lenient : surroundings.Lenient) (net : Network σ) {scene : Scene σ}
    (h : p.Leads surroundings s trace (.waiting w) scene.stores) :
    ∃ trace, p.Leads surroundings s trace (w.run net scene).2 (w.run net scene).1.stores := by
  have same := net.stores_lookAll w.slots scene
  rw [Waiting.run]
  cases joined : joined? w.looks (net.lookAll w.slots scene).2 w.joining with
  | some answer =>
    obtain ⟨rest, leads⟩ :=
      leads_advance lenient net (w.resume answer) (net.lookAll w.slots scene).1
    rw [same] at leads
    simp only [joined]
    exact ⟨_, h.resume (lenient.possible answer) leads⟩
  | none =>
    simp only [joined, same]
    exact ⟨trace, h.wait lenient (lenient.refl _) _ _⟩

end Program

/-! ### Values that are changed in the end -/

/-- A program that waits, with its value changed. -/
def Waiting.map (f : α → β) (w : Waiting α) : Waiting β :=
  { w with resume := fun answer => (w.resume answer).map f }

/-- A task with its value changed. -/
def Task.map (f : α → β) : Task α → Task β
  | .waiting w => .waiting (w.map f)
  | .finished a => .finished (f a)

/-- The course of a program whose value is changed in the end is a course of the program. -/
theorem Program.Leads.of_map {surroundings : Surroundings} {n : Nat} {p : Program α n} {f : α → β}
    {s s' : Stores} {trace : List Exchange} {task : Task β}
    (h : (p.map f).Leads surroundings s trace task s') :
    ∃ task', p.Leads surroundings s trace task' s' ∧ task = task'.map f := by
  induction p generalizing s trace with
  | done a =>
    obtain ⟨rfl, rfl, rfl⟩ := leads_done_iff.mp h
    exact ⟨.finished a, .done a _, rfl⟩
  | look k ih =>
    obtain ⟨task', leads, same⟩ := ih s (leads_look_iff.mp h)
    exact ⟨task', .look leads, same⟩
  | change g next ih =>
    obtain ⟨task', leads, same⟩ := ih (leads_change_iff.mp h)
    exact ⟨task', .change leads, same⟩
  | ask calls joining k ih =>
    rcases h with _ | _ | _ | ⟨slots, looks, meanwhile⟩ | ⟨e, possible, meanwhile, rest⟩
    · exact ⟨.waiting ⟨_, calls, joining, slots, looks, k⟩, .waits slots looks meanwhile, rfl⟩
    · obtain ⟨task', leads, same⟩ := ih _ rest
      exact ⟨task', .ask e possible meanwhile leads, same⟩

end CrossBook.Engine
