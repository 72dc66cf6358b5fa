import CrossBook.Engine.Clock
import Mathlib.Data.List.Perm.Subperm

/-!
# Runs of programs

A run of a program alternates its own doings with waits. While it waits, whoever runs beside it may
change the stores, and its calls come to anything: any of them may fail, be answered in any way, or
meet its deadline before it reaches anybody. The trace of a run tells what it asked for and what it
was answered.

Every execution on a clock is such a run, whatever the network answers and however long it takes.

## Main definitions

* `Engine.Exchange` — calls made together, with what became of them
* `Engine.Surroundings` — what happens beside a program
* `Engine.Program.Runs` — the runs of a program, with their traces
* `Engine.Task.Concludes` — an execution of a task on a clock

## Main results

* `Engine.Program.Runs.reached_subperm` — no call reaches somebody more often than it is made
* `Engine.Task.Concludes.runs` — an execution is a run
-/

namespace CrossBook.Engine

variable {σ α : Type}

/-- Calls made together, what waiting for them came to, and those that reached somebody. -/
structure Exchange where
  calls : List Call
  joining : Joining
  answer : Joined joining calls
  reached : List Call

/-- All calls a trace asks for. -/
def asked (trace : List Exchange) : List Call := trace.flatMap (·.calls)

/-- All calls of a trace that reached somebody. -/
def reached (trace : List Exchange) : List Call := trace.flatMap (·.reached)

@[simp] theorem asked_nil : asked [] = [] := rfl

@[simp] theorem asked_cons (e : Exchange) (trace : List Exchange) :
    asked (e :: trace) = e.calls ++ asked trace := rfl

@[simp] theorem reached_nil : reached [] = [] := rfl

@[simp] theorem reached_cons (e : Exchange) (trace : List Exchange) :
    reached (e :: trace) = e.reached ++ reached trace := rfl

/-- What happens beside a program: how the stores may change while it waits, and which calls reach
somebody at once. -/
structure Surroundings where
  Meanwhile : Stores → Stores → Prop
  Prompt : Call → Prop

/-- No call reaches somebody more often than it is made, and prompt calls do reach somebody. -/
structure Exchange.Possible (surroundings : Surroundings) (e : Exchange) : Prop where
  once : ∀ c, e.reached.count c ≤ e.calls.count c
  prompt : ∀ c ∈ e.calls, surroundings.Prompt c → c ∈ e.reached

/-- A program runs from some stores to its value and some stores. -/
inductive Program.Runs (surroundings : Surroundings) :
    {n : Nat} → Program α n → Stores → List Exchange → α → Stores → Prop where
  | done {n : Nat} (a : α) (s : Stores) : Runs surroundings (.done (n := n) a) s [] a s
  | look {n : Nat} {k : Stores → Program α n} {s s' : Stores} {trace : List Exchange} {a : α}
      (rest : Runs surroundings (k s) s trace a s') : Runs surroundings (.look k) s trace a s'
  | change {n : Nat} {f : Stores → Stores} {next : Program α n} {s s' : Stores}
      {trace : List Exchange} {a : α} (rest : Runs surroundings next (f s) trace a s') :
      Runs surroundings (.change f next) s trace a s'
  | ask {n : Nat} (e : Exchange) {k : Joined e.joining e.calls → Program α n} {s s₁ s' : Stores}
      {trace : List Exchange} {a : α} (possible : e.Possible surroundings)
      (meanwhile : surroundings.Meanwhile s s₁)
      (rest : Runs surroundings (k e.answer) s₁ trace a s') :
      Runs surroundings (.ask e.calls e.joining k) s (e :: trace) a s'

namespace Program

variable {surroundings : Surroundings} {n : Nat} {s s' : Stores} {trace : List Exchange} {a b : α}

theorem runs_done_iff : (Program.done (n := n) a).Runs surroundings s trace b s' ↔
    trace = [] ∧ b = a ∧ s' = s := by
  constructor
  · rintro ⟨⟩
    exact ⟨rfl, rfl, rfl⟩
  · rintro ⟨rfl, rfl, rfl⟩
    exact .done _ _

theorem runs_look_iff {k : Stores → Program α n} :
    (Program.look k).Runs surroundings s trace a s' ↔ (k s).Runs surroundings s trace a s' := by
  constructor
  · rintro ⟨⟩
    assumption
  · exact .look

theorem runs_change_iff {f : Stores → Stores} {next : Program α n} :
    (Program.change f next).Runs surroundings s trace a s' ↔
      next.Runs surroundings (f s) trace a s' := by
  constructor
  · rintro ⟨⟩
    assumption
  · exact .change

theorem runs_ask_iff {calls : List Call} {joining : Joining}
    {k : Joined joining calls → Program α n} :
    (Program.ask calls joining k).Runs surroundings s trace a s' ↔
      ∃ answer there s₁ rest, trace = ⟨calls, joining, answer, there⟩ :: rest ∧
        Exchange.Possible surroundings ⟨calls, joining, answer, there⟩ ∧
        surroundings.Meanwhile s s₁ ∧ (k answer).Runs surroundings s₁ rest a s' := by
  constructor
  · rintro ⟨⟩
    exact ⟨_, _, _, _, rfl, ‹_›, ‹_›, ‹_›⟩
  · rintro ⟨answer, there, s₁, rest, rfl, possible, meanwhile, runs⟩
    exact .ask ⟨calls, joining, answer, there⟩ possible meanwhile runs

theorem runs_call_iff {c : Call} {k : c.Result → Program α n} :
    (Program.call c k).Runs surroundings s trace a s' ↔
      ∃ (r : c.Result) (there : List Call) (s₁ : Stores) (rest : List Exchange),
        trace = ⟨[c], .untilAll, .cons r .nil, there⟩ :: rest ∧
        Exchange.Possible surroundings ⟨[c], .untilAll, .cons r .nil, there⟩ ∧
        surroundings.Meanwhile s s₁ ∧ (k r).Runs surroundings s₁ rest a s' := by
  rw [call, runs_ask_iff]
  constructor
  · rintro ⟨_ | ⟨r, _ | _⟩, there, s₁, rest, rfl, possible, meanwhile, runs⟩
    exact ⟨r, there, s₁, rest, rfl, possible, meanwhile, runs⟩
  · rintro ⟨r, there, s₁, rest, rfl, possible, meanwhile, runs⟩
    exact ⟨.cons r .nil, there, s₁, rest, rfl, possible, meanwhile, runs⟩

/-- In a run no call reaches somebody more often than it is made. -/
theorem Runs.reached_subperm {p : Program α n} (h : p.Runs surroundings s trace a s') :
    (reached trace).Subperm (asked trace) := by
  induction h with
  | done => exact .refl _
  | look _ ih => exact ih
  | change _ ih => exact ih
  | ask e possible _ _ ih =>
    exact (List.subperm_ext_iff.mpr fun c _ => possible.once c).append ih

/-- In a run every prompt call reaches somebody. -/
theorem Runs.mem_reached {p : Program α n} (h : p.Runs surroundings s trace a s') {c : Call}
    (made : c ∈ asked trace) (prompt : surroundings.Prompt c) : c ∈ reached trace := by
  induction h with
  | done => cases made
  | look _ ih => exact ih made
  | change _ ih => exact ih made
  | ask e possible _ _ ih =>
    rcases List.mem_append.mp made with now | later
    · exact List.mem_append_left _ (possible.prompt c now prompt)
    · exact List.mem_append_right _ (ih later)

end Program

/-! ### Executions -/

/-- The network that keeps a log of the calls that reach it. -/
def Network.logged (net : Network σ) : Network (σ × List Call) where
  waits c w := net.waits c w.1
  answer c w := (((net.answer c w.1).1, w.2 ++ [c]), (net.answer c w.1).2)
  limitSecs := net.limitSecs

/-- A call that has to be made and never waits. -/
def Network.Prompt (net : Network σ) (c : Call) : Prop :=
  c.known? = none ∧ ∀ w, (net.waits c w).filter (· ≠ 0) = []

/-- An execution of a task: whenever it waits, something happens beside it, and then it looks at
what it waits for. -/
inductive Task.Concludes (net : Network σ) (Meanwhile : Scene σ → Scene σ → Prop) :
    Task α → Scene σ → α → Scene σ → Prop where
  | finished (a : α) (s : Scene σ) : Concludes net Meanwhile (.finished a) s a s
  | waiting {w : Waiting α} {s s₁ s' : Scene σ} {a : α} (meanwhile : Meanwhile s s₁)
      (rest : Concludes net Meanwhile (w.run net s₁).2 (w.run net s₁).1 a s') :
      Concludes net Meanwhile (.waiting w) s a s'

/-- The call, as long as it waits. -/
def Slot.outstanding {c : Call} : Slot c → List Call
  | .answered _ => []
  | .waiting _ _ _ => [c]

/-- The calls that wait. -/
def outstanding : {calls : List Call} → Answers Slot calls → List Call
  | _, .nil => []
  | _, .cons slot slots => slot.outstanding ++ outstanding slots

/-- Between two scenes some calls reached the network, which its log tells, and nothing was done to
the stores. -/
structure Logs (s s' : Scene (σ × List Call)) (there : List Call) : Prop where
  stores_eq : s'.stores = s.stores
  log_eq : s'.world.2 = s.world.2 ++ there

theorem Logs.refl (s : Scene (σ × List Call)) : Logs s s [] := ⟨rfl, (List.append_nil _).symm⟩

theorem Logs.trans {s s' s'' : Scene (σ × List Call)} {there there' : List Call}
    (h : Logs s s' there) (h' : Logs s' s'' there') : Logs s s'' (there ++ there') :=
  ⟨h'.stores_eq.trans h.stores_eq, by rw [h'.log_eq, h.log_eq, List.append_assoc]⟩

namespace Network

variable (net : Network σ)

theorem logs_reach (c : Call) (s : Scene (σ × List Call)) :
    Logs s (net.logged.reach c s).1 [c] := ⟨rfl, rfl⟩

/-- A call that is begun reaches the network at once, or waits, or neither. -/
theorem logs_begin (c : Call) (s : Scene (σ × List Call)) :
    ∃ there, Logs s (net.logged.begin c s).1 there ∧
      (∀ d, there.count d + (net.logged.begin c s).2.outstanding.count d ≤ [c].count d) ∧
      (net.Prompt c → c ∈ there) := by
  unfold begin
  split
  · next known =>
      exact ⟨[], .refl s, by simp [Slot.outstanding], fun prompt => by simp [prompt.1] at known⟩
  · split
    · exact ⟨[c], net.logs_reach c s, by simp [Slot.outstanding], by simp⟩
    · next waits =>
      -- what waits is not prompt
      have never (prompt : net.Prompt c) : False :=
        nomatch (prompt.2 s.world.1).symm.trans waits
      split_ifs
      · exact ⟨[], .refl s, by simp [Slot.outstanding], fun prompt => (never prompt).elim⟩
      · exact ⟨[], ⟨rfl, (List.append_nil _).symm⟩, by simp [Slot.outstanding],
          fun prompt => (never prompt).elim⟩

theorem count_outstanding_unlessLate {c : Call} (wait : Timer) (later : List Nat)
    (deadline : Timer) (now : Nat) (d : Call) :
    (net.unlessLate c wait later deadline now).outstanding.count d ≤ [c].count d := by
  unfold unlessLate
  split_ifs
  · exact Nat.zero_le _
  · exact Nat.le_refl _

/-- A call that is looked at reaches the network, or goes on waiting, or neither. -/
theorem logs_look {c : Call} (slot : Slot c) (s : Scene (σ × List Call)) :
    ∃ there, Logs s (net.logged.look c slot s).1 there ∧
      ∀ d, there.count d + (net.logged.look c slot s).2.outstanding.count d
        ≤ slot.outstanding.count d := by
  cases slot with
  | answered r => exact ⟨[], .refl s, by simp [look, Slot.outstanding]⟩
  | waiting wait later deadline =>
    unfold look
    dsimp only
    split_ifs with elapsed
    · cases later with
      | nil => exact ⟨[c], net.logs_reach c s, by simp [Slot.outstanding]⟩
      | cons next later =>
        refine ⟨[], ⟨rfl, (List.append_nil _).symm⟩, fun d => ?_⟩
        rw [List.count_nil, Nat.zero_add]
        exact net.logged.count_outstanding_unlessLate _ _ _ _ d
    · refine ⟨[], .refl s, fun d => ?_⟩
      rw [List.count_nil, Nat.zero_add]
      exact net.logged.count_outstanding_unlessLate _ _ _ _ d

/-- Of calls that are begun, each reaches the network at most once, now or later. -/
theorem logs_beginAll (calls : List Call) (s : Scene (σ × List Call)) :
    ∃ there, Logs s (net.logged.beginAll calls s).1 there ∧
      (∀ d, there.count d + (outstanding (net.logged.beginAll calls s).2).count d
        ≤ calls.count d) ∧
      ∀ c ∈ calls, net.Prompt c → c ∈ there := by
  induction calls generalizing s with
  | nil => exact ⟨[], .refl s, by simp [beginAll, outstanding], by simp⟩
  | cons c calls ih =>
    obtain ⟨first, firstLogs, firstCount, firstPrompt⟩ := net.logs_begin c s
    obtain ⟨others, logs, count, prompt⟩ := ih (net.logged.begin c s).1
    refine ⟨first ++ others, firstLogs.trans logs, fun d => ?_, fun d among reaches => ?_⟩
    · have := firstCount d
      have := count d
      rw [beginAll, outstanding, List.count_append, List.count_append, ← List.singleton_append,
        List.count_append]
      omega
    · rcases List.mem_cons.mp among with rfl | later
      · exact List.mem_append_left _ (firstPrompt reaches)
      · exact List.mem_append_right _ (prompt d later reaches)

/-- Of calls that are looked at, each that waits reaches the network at most once, now or later. -/
theorem logs_lookAll {calls : List Call} (slots : Answers Slot calls)
    (s : Scene (σ × List Call)) :
    ∃ there, Logs s (net.logged.lookAll slots s).1 there ∧
      ∀ d, there.count d + (outstanding (net.logged.lookAll slots s).2).count d
        ≤ (outstanding slots).count d := by
  induction slots generalizing s with
  | nil => exact ⟨[], .refl s, by simp [lookAll, outstanding]⟩
  | cons slot slots ih =>
    obtain ⟨first, firstLogs, firstCount⟩ := net.logs_look slot s
    obtain ⟨others, logs, count⟩ := ih (net.logged.look _ slot s).1
    refine ⟨first ++ others, firstLogs.trans logs, ?_⟩
    intro d
    have := firstCount d
    have := count d
    rw [lookAll, outstanding, outstanding, List.count_append, List.count_append, List.count_append]
    omega

end Network

/-- What happens beside an execution is allowed by the surroundings and not logged, and calls that
are prompt for the surroundings are prompt for the network. -/
structure Surroundings.Admits (surroundings : Surroundings) (net : Network σ)
    (Meanwhile : Scene (σ × List Call) → Scene (σ × List Call) → Prop) : Prop where
  refl : ∀ s, surroundings.Meanwhile s s
  trans : ∀ s s' s'', surroundings.Meanwhile s s' → surroundings.Meanwhile s' s'' →
    surroundings.Meanwhile s s''
  meanwhile : ∀ s s', Meanwhile s s' →
    surroundings.Meanwhile s.stores s'.stores ∧ s'.world.2 = s.world.2
  prompt : ∀ c, surroundings.Prompt c → net.Prompt c

/-- The rest of an execution is the rest of a run: of a task that waits, for any account of the
calls it made that have reached the network so far. -/
def Traced (surroundings : Surroundings) :
    Task α → Scene (σ × List Call) → α → Scene (σ × List Call) → Prop
  | .finished b, s, a, s' => a = b ∧ s' = s
  | .waiting w, s, a, s' => ∀ before : List Call,
      (∀ d, before.count d + (outstanding w.slots).count d ≤ w.calls.count d) →
      (∀ c ∈ w.calls, surroundings.Prompt c → c ∈ before) →
      ∃ answer there s₁ trace,
        Exchange.Possible surroundings ⟨w.calls, w.joining, answer, before ++ there⟩ ∧
        surroundings.Meanwhile s.stores s₁ ∧
        (w.resume answer).Runs surroundings s₁ trace a s'.stores ∧
        s'.world.2 = s.world.2 ++ there ++ reached trace

section Adequacy

variable {net : Network σ} {surroundings : Surroundings}
  {Meanwhile : Scene (σ × List Call) → Scene (σ × List Call) → Prop}

/-- A program that is advanced runs, when the task it leads to does. -/
theorem runs_of_traced (admits : surroundings.Admits net Meanwhile) {a : α}
    {s' : Scene (σ × List Call)} {n : Nat} (p : Program α n) (s : Scene (σ × List Call))
    (h : Traced surroundings (advance net.logged p s).2 (advance net.logged p s).1 a s') :
    ∃ trace, p.Runs surroundings s.stores trace a s'.stores ∧
      s'.world.2 = s.world.2 ++ reached trace := by
  induction p generalizing s with
  | done b =>
    obtain ⟨rfl, rfl⟩ := h
    exact ⟨[], .done _ _, (List.append_nil _).symm⟩
  | look k ih =>
    obtain ⟨trace, runs, log⟩ := ih s.stores s h
    exact ⟨trace, .look runs, log⟩
  | change f next ih =>
    obtain ⟨trace, runs, log⟩ := ih { s with stores := f s.stores } h
    exact ⟨trace, .change runs, log⟩
  | ask calls joining k ih =>
    obtain ⟨there, logs, count, prompt⟩ := net.logs_beginAll calls s
    rw [advance] at h
    cases joined : joined? 0 (net.logged.beginAll calls s).2 joining with
    | some answer =>
      -- answered on the spot: what still waits is given up and never reaches anybody
      simp only [joined] at h
      obtain ⟨trace, runs, log⟩ := ih answer _ h
      rw [logs.stores_eq] at runs
      refine ⟨⟨calls, joining, answer, there⟩ :: trace, .ask ⟨calls, joining, answer, there⟩
        ⟨fun d => ?_, fun c among reaches => prompt c among (admits.prompt c reaches)⟩
        (admits.refl _) runs, ?_⟩
      · have := count d
        dsimp only
        omega
      · rw [log, logs.log_eq, reached_cons, List.append_assoc]
    | none =>
      -- the program waits, and what has reached somebody so far is the account of its calls
      simp only [joined] at h
      obtain ⟨answer, later, s₁, trace, possible, meanwhile, runs, log⟩ := h there count
        fun c among reaches => prompt c among (admits.prompt c reaches)
      rw [logs.stores_eq] at meanwhile
      refine ⟨⟨calls, joining, answer, there ++ later⟩ :: trace,
        .ask ⟨calls, joining, answer, there ++ later⟩ possible meanwhile runs, ?_⟩
      rw [log, logs.log_eq, reached_cons]
      simp only [List.append_assoc]

/-- A program that never waits runs. -/
theorem runs_of_finished (admits : surroundings.Admits net Meanwhile) {n : Nat} {p : Program α n}
    {s : Scene (σ × List Call)} {a : α} (h : (advance net.logged p s).2 = .finished a) :
    ∃ trace, p.Runs surroundings s.stores trace a (advance net.logged p s).1.stores ∧
      (advance net.logged p s).1.world.2 = s.world.2 ++ reached trace :=
  runs_of_traced admits p s (by rw [h]; exact ⟨rfl, rfl⟩)

theorem Task.Concludes.traced (admits : surroundings.Admits net Meanwhile) {task : Task α} {a : α}
    {s s' : Scene (σ × List Call)} (h : task.Concludes net.logged Meanwhile s a s') :
    Traced surroundings task s a s' := by
  induction h with
  | finished b s => exact ⟨rfl, rfl⟩
  | @waiting w s s₁ s' a happens rest ih =>
    intro before count prompt
    obtain ⟨meanwhile, unlogged⟩ := admits.meanwhile s s₁ happens
    obtain ⟨there, logs, left⟩ := net.logs_lookAll w.slots s₁
    rw [Waiting.run] at ih
    -- the calls that reach somebody at this look are added to the account
    cases joined : joined? w.looks (net.logged.lookAll w.slots s₁).2 w.joining with
    | some answer =>
      simp only [joined] at ih
      obtain ⟨trace, runs, log⟩ := runs_of_traced admits (w.resume answer) _ ih
      refine ⟨answer, there, _, trace, ⟨fun d => ?_, fun c among reaches =>
        List.mem_append_left _ (prompt c among reaches)⟩, ?_, runs, ?_⟩
      · have := count d
        have := left d
        rw [List.count_append]
        dsimp only
        omega
      · rwa [logs.stores_eq]
      · rw [log, logs.log_eq, unlogged]
    | none =>
      simp only [joined] at ih
      obtain ⟨answer, later, s₂, trace, possible, meanwhile', runs, log⟩ := ih (before ++ there)
        (fun d => by
          have := count d
          have := left d
          rw [List.count_append]
          dsimp only
          omega)
        fun c among reaches => List.mem_append_left _ (prompt c among reaches)
      rw [logs.stores_eq] at meanwhile'
      refine ⟨answer, there ++ later, s₂, trace, ?_, admits.trans _ _ _ meanwhile meanwhile', runs,
        ?_⟩
      · rwa [← List.append_assoc]
      · rw [log, logs.log_eq, unlogged]
        simp only [List.append_assoc]

/-- An execution of a program on a clock is a run of it, whatever the network answers and however
long its calls wait. The log of the network tells the calls that reach it. -/
theorem Task.Concludes.runs (admits : surroundings.Admits net Meanwhile) {n : Nat}
    {p : Program α n} {a : α} {s s' : Scene (σ × List Call)}
    (h : (Task.waiting (.ofProgram p)).Concludes net.logged Meanwhile s a s') :
    ∃ s₁ trace, surroundings.Meanwhile s.stores s₁ ∧ p.Runs surroundings s₁ trace a s'.stores ∧
      s'.world.2 = s.world.2 ++ reached trace := by
  obtain ⟨answer, there, s₁, trace, possible, meanwhile, runs, log⟩ :=
    h.traced admits [] (fun d => Nat.zero_le _) (fun c among => absurd among List.not_mem_nil)
  -- a program that has not begun waits for nothing, so nothing can reach anybody
  have none : there = [] := by
    refine List.eq_nil_iff_forall_not_mem.mpr fun c among => ?_
    have once : there.count c ≤ 0 := possible.once c
    exact absurd (List.count_pos_iff.mpr among) (Nat.not_lt.mpr once)
  exact ⟨s₁, trace, meanwhile, runs, by rw [log, none, List.append_nil]⟩

end Adequacy

end CrossBook.Engine
