import CrossBook.Proofs.Engine.Endings
import CrossBook.Proofs.Engine.Pairs

/-!
# One block at a time

The guard is taken just while a block is in flight, whatever happens to a session. A block that
finds it taken is turned away and leaves everything as it was. The block in flight comes to its end
when it goes on, and by whatever end it gives the guard back. When it returns, it tells of each pair
once.

## Main definitions

* `Engine.Session.Guarded` — at most one block is in flight, and it holds the guard
* `Engine.TellsAll` — outcomes of all pairs, in the order of their names

## Main results

* `Engine.Session.Guarded.happen` — so it stays, and a block that ends frees the guard
* `Engine.Session.Guarded.resume` — the block in flight comes to its end
* `Engine.Session.Concludes.tellsAll` — what a block that returns tells of its pairs
* `Engine.Session.one_block_at_a_time` — all of this after any history
-/

namespace CrossBook.Engine

variable {σ : Type}

/-! ### Whoever holds the guard -/

namespace Session

variable {s s₀ s₁ : Session σ}

/-- No block is in flight and nobody holds the guard, or one block is in flight and holds it. Then
the turns that it gets bring it on. -/
inductive Guarded (s : Session σ) : Prop
  | free (idle : s.Idle)
  | taken {permit : Nat} {f : Flight} (one : s.flights = [(permit, f)])
      (held : s.guard.held = some permit) (timely : f.Timely s.scene)

theorem Idle.isBusy_eq_false (h : s.Idle) : s.guard.isBusy = false := by
  rw [Guard.isBusy, h.free, Option.isSome_none]

theorem Guarded.isBusy_iff (h : s.Guarded) : s.guard.isBusy ↔ s.flights ≠ [] := by
  cases h with
  | free idle => simp [Guard.isBusy, idle.free, idle.nobody]
  | taken one held => simp [Guard.isBusy, held, one]

theorem Guarded.length_le_one (h : s.Guarded) : s.flights.length ≤ 1 := by
  cases h with
  | free idle => simp [idle.nobody]
  | taken one => simp [one]

/-- A block that goes on in a session where it holds the guard still holds it, or gives it back. -/
theorem guarded_resume {permit : Nat} {f : Flight} (post : Post) (one : s.flights = [(permit, f)])
    (held : s.guard.held = some permit) (timely : f.Timely s.scene) :
    (s.happen (.resume post permit)).1.Guarded ∧
      ∀ r, .ended r ∈ (s.happen (.resume post permit)).2 →
        (s.happen (.resume post permit)).1.Idle := by
  rw [happen_resume one held]
  rcases step : f.step s.network s.traders post s.scene with ⟨scene, f' | r⟩
  · have after := (Flight.step_wears timely step).1
    exact ⟨.taken rfl held after, by simp⟩
  · exact ⟨.free ⟨rfl, rfl⟩, fun _ _ => ⟨rfl, rfl⟩⟩

/-- One move. -/
theorem Guarded.happen (h : s.Guarded) (m : Move σ) :
    (s.happen m).1.Guarded ∧ ∀ r, .ended r ∈ (s.happen m).2 → (s.happen m).1.Idle := by
  cases m with
  | feed shelf =>
    refine ⟨?_, fun r ended => absurd ended List.not_mem_nil⟩
    cases h with
    | free idle => exact .free ⟨idle.nobody, idle.free⟩
    | taken one held timely => exact .taken one held (by cases ‹Flight› <;> exact timely)
  | alter f =>
    refine ⟨?_, fun r ended => absurd ended List.not_mem_nil⟩
    cases h with
    | free idle => exact .free ⟨idle.nobody, idle.free⟩
    | taken one held timely => exact .taken one held (by cases ‹Flight› <;> exact timely)
  | arrive e =>
    cases h with
    | free idle =>
      rw [happen_arrive_of_idle e idle.nobody idle.free]
      exact ⟨.taken rfl rfl (Flight.timely_launch _ _ _), by simp⟩
    | taken one held timely =>
      rw [Session.happen, arrive_of_held e held]
      exact ⟨.taken one rfl timely, by simp⟩
  | resume post permit' =>
    cases found : s.flight? permit' with
    | none =>
      rw [happen_resume_of_none found]
      exact ⟨h, by simp⟩
    | some f' =>
      cases h with
      | free idle => simp [flight?, idle.nobody] at found
      | taken one held timely =>
        obtain rfl := permit_eq_of_one one found
        exact guarded_resume post one held timely

theorem Guarded.history (h : s.Guarded) (moves : List (Move σ)) : (s.history moves).1.Guarded := by
  induction moves using List.reverseRecOn with
  | nil => exact h
  | append_singleton moves m ih =>
    rw [history_concat]
    exact (ih.happen m).1

theorem guarded_list {settings : Settings} (listed : s₁.list settings = (s₀, .ok ())) :
    s₀.Guarded := by
  obtain ⟨_, _, _, -, -, rfl⟩ := list_eq_ok_iff.mp listed
  exact .free ⟨rfl, rfl⟩

/-- The block in flight comes to its end when it goes on, and gives the guard back. -/
theorem Guarded.resume {permit : Nat} {f : Flight} (h : s.Guarded)
    (inFlight : (permit, f) ∈ s.flights) (post : Post) :
    ∃ s' r, s.resume post permit = (s', some r) ∧ s'.Idle := by
  cases h with
  | free idle => simp [idle.nobody] at inFlight
  | taken one held timely =>
    rw [one, List.mem_singleton] at inFlight
    obtain ⟨rfl, rfl⟩ := Prod.mk.inj inFlight
    have found : s.flight? permit = some f := by simp [flight?, one]
    have others : s.otherFlights permit = [] := by simp [otherFlights, one]
    have steps (f : Flight) (scene : Scene σ) : Progress.Meets (fun _ _ => True) (fun _ _ => True)
        (f.step s.network s.traders post scene) := by
      unfold Progress.Meets
      split <;> trivial
    have comes := Flight.runUntil_comes (fun _ => false) (fun f scene _ _ => steps f scene) timely
      trivial
    rw [Session.resume, resumeUntil, found]
    dsimp only
    rcases result : f.runUntil s.network s.traders post (fun _ => false) s.scene with
      ⟨scene, f' | r⟩ <;> rw [result] at comes
    · exact absurd comes.2 Bool.false_ne_true
    · refine ⟨_, r, rfl, others, ?_⟩
      simp [Guard.release, held]

/-! ### Blocks that arrive -/

/-- A block that finds the guard taken is turned away. The guard has counted one more who asked for
it; that is all. -/
theorem happen_arrive_of_busy (busy : s.guard.isBusy) (e : BlockEvent) :
    ∃ guard : Guard, guard.held = s.guard.held ∧
      s.happen (.arrive e) = ({ s with guard := guard }, [.turnedAway e]) ∧
      s.process e = ({ s with guard := guard }, some (.ok (.busy e.height))) := by
  obtain ⟨permit, held⟩ := Option.isSome_iff_exists.mp busy
  refine ⟨⟨some permit, s.guard.asked + 1⟩, held.symm, ?_, ?_⟩
  · rw [Session.happen, arrive_of_held e held]
  · rw [process, arrive_of_held e held]

theorem Guarded.happen_arrive_of_free (h : s.Guarded) (free : s.guard.isBusy = false)
    (e : BlockEvent) : (s.happen (.arrive e)).2 = [.admitted e] ∧
      (s.happen (.arrive e)).1.flights =
        [(s.guard.asked, .launch e.height (s.targets e))] := by
  cases h with
  | free idle =>
    rw [happen_arrive_of_idle e idle.nobody idle.free]
    exact ⟨rfl, rfl⟩
  | taken one held => simp [Guard.isBusy, held] at free

end Session

/-! ### What a block tells of its pairs -/

/-- The outcomes of landings, each with the pair that has landed. -/
theorem exists_told {landed : List (Trader × Landing)} {outcomes : List PairOutcome}
    (collected : outcomesOf (landed.map (·.2)) = .ok outcomes)
    (named : ∀ m ∈ landed, m.2.pair = m.1.name) :
    ∃ told : List (Trader × Outcome), told.map (·.1) = landed.map (·.1) ∧
      outcomes = (told.map fun m => ⟨m.1.name, m.2⟩) ∧
      ∀ m ∈ told, ∃ l, (m.1, l) ∈ landed ∧ l.ending = .ok m.2 := by
  induction landed generalizing outcomes with
  | nil =>
    obtain rfl := Except.ok.inj collected
    exact ⟨[], rfl, rfl, by simp⟩
  | cons m landed ih =>
    obtain ⟨t, l⟩ := m
    obtain ⟨o, others, ending, rest, rfl⟩ := outcomesOf_cons_eq_ok.mp collected
    obtain ⟨told, same, rfl, each⟩ := ih rest fun m among =>
      named m (List.mem_cons_of_mem _ among)
    have name : l.pair = t.name := named (t, l) List.mem_cons_self
    refine ⟨(t, o) :: told, by simp [same], by simp [name], ?_⟩
    rintro m (_ | ⟨_, among⟩)
    · exact ⟨l, List.mem_cons_self, ending⟩
    · obtain ⟨l', landing, ended⟩ := each m among
      exact ⟨l', List.mem_cons_of_mem _ landing, ended⟩

/-- Outcomes of some pairs in the order of their names, one of each: that with which its cycle at a
height has ended. -/
structure TellsAll (traders : List Trader) (height : Nat) (outcomes : List PairOutcome) : Prop where
  sorted : outcomes.Pairwise fun o o' => ¬ o'.pair < o.pair
  each : ∃ told : List (Trader × Outcome), (told.map (·.1)).Perm traders ∧
    outcomes.Perm (told.map fun m => ⟨m.1.name, m.2⟩) ∧
    ∀ m ∈ told, ∃ shared s₁ trace s₂,
      (m.1.cycle height).Runs (m.1.beside shared height) s₁ trace (.ok m.2) s₂

theorem TellsAll.pairs_perm {traders : List Trader} {height : Nat} {outcomes : List PairOutcome}
    (h : TellsAll traders height outcomes) :
    (outcomes.map (·.pair)).Perm (traders.map Trader.name) := by
  obtain ⟨told, all, perm, -⟩ := h.each
  have names := perm.map (·.pair)
  rw [List.map_map] at names
  have traders := all.map Trader.name
  rw [List.map_map] at traders
  exact names.trans traders

theorem sorted_sortOutcomes (outcomes : List PairOutcome) :
    (sortOutcomes outcomes).Pairwise fun o o' => ¬ o'.pair < o.pair := by
  refine (List.pairwise_mergeSort (fun a b c before after => ?_) (fun a b => ?_) outcomes).imp
    of_decide_eq_true
  · exact decide_eq_true (String.le_trans (of_decide_eq_true before) (of_decide_eq_true after))
  · rw [Bool.or_eq_true, decide_eq_true_eq, decide_eq_true_eq]
    exact String.le_total a.pair b.pair

namespace Session

variable {s s₀ s₁ : Session σ} {base : Cooldowns} {log : List Occurrence}

/-- A block that returns tells of each of its pairs. -/
theorem Concludes.tellsAll {height height' : Nat} {refreshed : List Nat}
    {outcomes : List PairOutcome}
    (h : s.Concludes height base (.ok (.processed height' refreshed outcomes))) :
    height' = height ∧ TellsAll s.traders height outcomes := by
  cases h with
  | @processed _ outcomes landed done collected all =>
    obtain ⟨told, same, rfl, each⟩ := exists_told collected fun m among => (done m among).pair_eq
    refine ⟨rfl, sorted_sortOutcomes _, told, same ▸ all, List.mergeSort_perm _ _,
      fun m among => ?_⟩
    obtain ⟨l, landing, ending⟩ := each m among
    obtain ⟨-, s₁, trace, s₂, -, runs, -⟩ := done _ landing
    exact ⟨_, s₁, trace, s₂, ending ▸ runs⟩

/-- So does every block of a history. -/
theorem Starts.tellsAll (starts : s.Starts base) (companions : Companions s.traders)
    (moves : List (Move σ)) {height : Nat} {refreshed : List Nat} {outcomes : List PairOutcome}
    (ended : .ended (.ok (.processed height refreshed outcomes)) ∈ (s.history moves).2) :
    TellsAll s.traders height outcomes := by
  induction moves using List.reverseRecOn with
  | nil => cases ended
  | append_singleton moves m ih =>
    rw [history_concat] at ended
    rcases List.mem_append.mp ended with earlier | now
    · exact ih earlier
    · have traders := s.traders_history moves
      obtain ⟨base', starts⟩ := starts.history companions moves
      rcases starts.happen (traders ▸ companions) m with
        ⟨unended, -⟩ | ⟨loads, r, height', seen, -, concludes⟩
      · exact absurd now (unended _)
      · obtain rfl : .ok (.processed height refreshed outcomes) = r := by
          rw [seen] at now
          simpa using now
        obtain ⟨rfl, tells⟩ := concludes.tellsAll
        rwa [traders_happen, traders] at tells

/-! ### Any history -/

/-- Over any history of a session whose pairs were listed, in whatever order blocks come and go on
and by whatever end, one block is in flight at most, and the guard is taken just while one is. A
block that finds it taken is turned away, and nothing changes but the number of blocks that asked.
A block that finds it free is admitted. The one in flight comes to its end when it goes on; whether
it returns or unwinds, the guard is free then. Blocks that return tell of each pair of the settings
once, in the order of names, how its cycle has ended. -/
theorem one_block_at_a_time {settings : Settings} {moves : List (Move σ)}
    (listed : s₁.list settings = (s₀, .ok ())) (happened : s₀.history moves = (s, log)) :
    s.flights.length ≤ 1 ∧ (s.guard.isBusy ↔ s.flights ≠ []) ∧
    (∀ e, s.guard.isBusy = true → ∃ guard : Guard, guard.held = s.guard.held ∧
      s.happen (.arrive e) = ({ s with guard := guard }, [.turnedAway e]) ∧
      s.process e = ({ s with guard := guard }, some (.ok (.busy e.height)))) ∧
    (∀ e, s.guard.isBusy = false → (s.happen (.arrive e)).2 = [.admitted e] ∧
      (s.happen (.arrive e)).1.flights =
        [(s.guard.asked, .launch e.height (s.targets e))]) ∧
    (∀ m r, .ended r ∈ (s.happen m).2 →
      (s.happen m).1.flights = [] ∧ (s.happen m).1.guard.isBusy = false) ∧
    (∀ permit f post, (permit, f) ∈ s.flights → ∃ s' r,
      s.resume post permit = (s', some r) ∧ s'.flights = [] ∧ s'.guard.isBusy = false) ∧
    ∃ found, settings.pairs = .ok found ∧ ∀ height refreshed outcomes,
      .ended (.ok (.processed height refreshed outcomes)) ∈ log →
        (outcomes.map (·.pair)).Perm (found.map Pair.name) ∧
          TellsAll s₀.traders height outcomes := by
  obtain ⟨companions, starts⟩ := companions_list listed
  have guarded : s.Guarded := by
    have guarded := (guarded_list listed).history moves
    rwa [happened] at guarded
  refine ⟨guarded.length_le_one, guarded.isBusy_iff, fun e busy => happen_arrive_of_busy busy e,
    fun e free => guarded.happen_arrive_of_free free e, fun m r ended => ?_,
    fun permit f post inFlight => ?_, _, (pairs_of_list listed).1,
    fun height refreshed outcomes ended => ?_⟩
  · have idle := (guarded.happen m).2 r ended
    exact ⟨idle.nobody, idle.isBusy_eq_false⟩
  · obtain ⟨s', r, comes, idle⟩ := guarded.resume inFlight post
    exact ⟨s', r, comes, idle.nobody, idle.isBusy_eq_false⟩
  · have tells := starts.tellsAll companions moves (by rwa [happened])
    refine ⟨?_, tells⟩
    rw [List.map_map]
    exact tells.pairs_perm

/-- The first block waits for its claims when the second arrives and is turned away. It unwinds, as
an amount leaves the decimals, and the third block is admitted. -/
theorem one_block_at_a_time_of_slowSession : ∃ s log s' log',
    slowStart.list twoPairs = (slowSession, .ok ()) ∧
    slowSession.history (wholeBlock 0 3 ⟨100, [1]⟩) = (s, log) ∧
    slowSession.history (wholeBlock 0 4 ⟨100, [1]⟩) = (s', log') ∧
    s.guard.isBusy = true ∧ (s.process ⟨101, [1]⟩).2 = some (.ok (.busy 101)) ∧
    .ended (.error .multiplication) ∈ log' ∧ s'.guard.isBusy = false ∧
    (s'.happen (.arrive ⟨102, [1]⟩)).2 = [.admitted ⟨102, [1]⟩] := by
  have listed : slowStart.list twoPairs = (slowSession, .ok ()) := rfl
  have before : slowSession.history (wholeBlock 0 3 ⟨100, [1]⟩) = (_, _) := rfl
  have after : slowSession.history (wholeBlock 0 4 ⟨100, [1]⟩) = (_, _) := rfl
  have busy : (slowSession.history (wholeBlock 0 3 ⟨100, [1]⟩)).1.guard.isBusy = true := by
    decide +kernel
  have free : (slowSession.history (wholeBlock 0 4 ⟨100, [1]⟩)).1.guard.isBusy = false := by
    decide +kernel
  obtain ⟨-, -, turnedAway, -⟩ := one_block_at_a_time listed before
  obtain ⟨-, -, -, admitted, -⟩ := one_block_at_a_time listed after
  obtain ⟨guard, -, -, report⟩ := turnedAway ⟨101, [1]⟩ busy
  exact ⟨_, _, _, _, listed, before, after, busy, congrArg Prod.snd report, by decide +kernel, free,
    (admitted ⟨102, [1]⟩ free).1⟩

end Session

end CrossBook.Engine
