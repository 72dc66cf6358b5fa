import CrossBook.Engine.Session
import Mathlib.Data.List.Induction
import Mathlib.Tactic.SplitIfs

/-!
# What happens to a session

Blocks arrive at a session at any time, blocks in flight go on, and meanwhile the venue's books and
the world change. The log of a history tells which blocks were admitted or turned away, which pools
were read, and how blocks ended.

## Main definitions

* `Engine.Move`, `Engine.Occurrence` — what happens to a session, and what is seen of it
* `Engine.Session.history` — the session after some moves, and the log of them
* `Engine.Session.Becomes` — one session becomes another one by some moves
-/

namespace CrossBook.Engine

variable {σ : Type}

/-- Something that happens to a session: a block arrives, the block that holds a permit goes on, the
venue's books change, or the world does. -/
inductive Move (σ : Type) where
  | arrive (e : BlockEvent)
  | resume (post : Post) (permit : Nat)
  | feed (shelf : Venue.Shelf)
  | alter (f : σ → σ)

deriving instance DecidableEq for Load

/-- Something that is seen of a session: a block is admitted or turned away, a pool is read, or a
block ends. -/
inductive Occurrence where
  | admitted (e : BlockEvent)
  | turnedAway (e : BlockEvent)
  | read (l : Load)
  | ended (r : Except Abort Report)
deriving DecidableEq

/-- A pool that was read whose orders cannot be. -/
def Load.unwinds (l : Load) : Bool :=
  match l.result with
  | .ok _ => false
  | .error e => e.severity = .invalidState

/-- The pools that are taken in when a block goes on: those that were read since the last time, up
to one that unwinds. -/
def Flight.takenIn : Flight → List Load
  | .refreshing _ fleet _ =>
    match fleet.upcoming with
    | .collecting => fleet.finished.takeWhile fun l => !l.unwinds
    | _ => []
  | .trading _ _ _ _ => []

namespace Session

/-- The session after a move, and what is seen of it. -/
def happen (s : Session σ) : Move σ → Session σ × List Occurrence
  | .arrive e =>
    match s.arrive e with
    | (s, some _) => (s, [.admitted e])
    | (s, none) => (s, [.turnedAway e])
  | .resume post permit =>
    let (s', r) := s.resumeOnce post permit
    (s', (((s.flight? permit).map Flight.takenIn).getD []).map .read ++ (r.map .ended).toList)
  | .feed shelf => (s.withShelf shelf, [])
  | .alter f => (s.modifyWorld f, [])

/-- The session after some moves, and all that is seen of it. -/
def history (s : Session σ) (moves : List (Move σ)) : Session σ × List Occurrence :=
  moves.foldl (fun h m => ((h.1.happen m).1, h.2 ++ (h.1.happen m).2)) (s, [])

@[simp] theorem history_nil (s : Session σ) : s.history [] = (s, []) := rfl

theorem history_concat (s : Session σ) (moves : List (Move σ)) (m : Move σ) :
    s.history (moves ++ [m]) =
      (((s.history moves).1.happen m).1, (s.history moves).2 ++ ((s.history moves).1.happen m).2) :=
  List.foldl_append

/-- A block arrives, and goes on a number of times by the permit it is given. -/
def wholeBlock (permit steps : Nat) (e : BlockEvent) : List (Move σ) :=
  .arrive e :: List.replicate steps (.resume .foreground permit)

/-- A session becomes another one by some moves. -/
def Becomes (s s' : Session σ) : Prop := ∃ moves, (s.history moves).1 = s'

variable {s s' s'' : Session σ}

theorem history_append (s : Session σ) (moves moves' : List (Move σ)) :
    s.history (moves ++ moves') =
      (((s.history moves).1.history moves').1,
        (s.history moves).2 ++ ((s.history moves).1.history moves').2) := by
  induction moves' using List.reverseRecOn with
  | nil => simp
  | append_singleton moves' m ih =>
    rw [← List.append_assoc, history_concat, ih, history_concat, List.append_assoc]

theorem Becomes.refl (s : Session σ) : s.Becomes s := ⟨[], rfl⟩

theorem Becomes.trans (h : s.Becomes s') (h' : s'.Becomes s'') : s.Becomes s'' := by
  obtain ⟨moves, rfl⟩ := h
  obtain ⟨moves', rfl⟩ := h'
  exact ⟨moves ++ moves', by rw [history_append]⟩

theorem becomes_happen (s : Session σ) (m : Move σ) : s.Becomes (s.happen m).1 := ⟨[m], rfl⟩

/-! ### Blocks that arrive -/

theorem arrive_of_free (e : BlockEvent) (free : s.guard.held = none) :
    s.arrive e = ({ s with guard := ⟨some s.guard.asked, s.guard.asked + 1⟩
                           flights := s.flights ++
                             [(s.guard.asked, .launch e.height (s.targets e))] },
      some s.guard.asked) := by
  simp [arrive, Guard.enter, Guard.isBusy, free]

theorem arrive_of_held (e : BlockEvent) {permit : Nat} (held : s.guard.held = some permit) :
    s.arrive e = ({ s with guard := ⟨some permit, s.guard.asked + 1⟩ }, none) := by
  simp [arrive, Guard.enter, Guard.isBusy, held]

/-- A block that arrives when none is in flight is admitted, and starts to read pools. -/
theorem happen_arrive_of_idle (e : BlockEvent) (nobody : s.flights = [])
    (free : s.guard.held = none) : s.happen (.arrive e) =
      ({ s with guard := ⟨some s.guard.asked, s.guard.asked + 1⟩
                flights := [(s.guard.asked, .refreshing e.height
                  (.launch ((s.targets e).map fun a => a.load e.height)) [])] },
        [.admitted e]) := by
  rw [happen, arrive_of_free e free, nobody]
  rfl

theorem becomes_arrive (s : Session σ) (e : BlockEvent) : s.Becomes (s.arrive e).1 := by
  refine ⟨[.arrive e], ?_⟩
  simp only [history, List.foldl_cons, List.foldl_nil, happen]
  rcases s.arrive e with ⟨s', _ | permit⟩ <;> rfl

/-! ### Blocks that go on -/

theorem happen_resume_of_none {post : Post} {permit : Nat} (none : s.flight? permit = none) :
    s.happen (.resume post permit) = (s, []) := by
  simp [happen, resumeOnce, none]

theorem permit_eq_of_one {permit permit' : Nat} {f f' : Flight} (one : s.flights = [(permit, f)])
    (found : s.flight? permit' = some f') : permit = permit' := by
  simp only [flight?, one, List.find?_cons, List.find?_nil] at found
  split at found
  · exact of_decide_eq_true ‹_›
  · cases found

theorem happen_resume {post : Post} {permit : Nat} {f : Flight} (one : s.flights = [(permit, f)])
    (held : s.guard.held = some permit) : s.happen (.resume post permit) =
      match f.step s.network s.traders post s.scene with
      | (scene, .going f') =>
        ({ s with scene := scene, flights := [(permit, f')] }, f.takenIn.map .read)
      | (scene, .ended r) =>
        ({ s with scene := scene, flights := [], guard := ⟨none, s.guard.asked⟩ },
          f.takenIn.map .read ++ [.ended r]) := by
  have found : s.flight? permit = some f := by simp [flight?, one]
  have others : s.otherFlights permit = [] := by simp [otherFlights, one]
  rw [happen, resumeOnce, found]
  rcases step : f.step s.network s.traders post s.scene with ⟨scene, f' | r⟩
  · simp [step, settle, others]
  · simp [step, settle, others, Guard.release, held]

theorem takenIn_of_proceed {height : Nat} {fleet fleet' : Fleet Load} {refreshed : List Nat}
    {net : Network σ} {post : Post} {scene scene' : Scene σ}
    (h : fleet.proceed? net post scene = some (scene', fleet')) :
    (Flight.refreshing height fleet refreshed).takenIn = [] := by
  rw [Fleet.proceed?] at h
  rw [Flight.takenIn]
  cases next : fleet.upcoming with
  | collecting => simp [next] at h
  | running => rfl
  | waking time => rfl

theorem takenIn_of_collect {height : Nat} {fleet : Fleet Load} {refreshed : List Nat}
    {net : Network σ} {post : Post} {scene : Scene σ}
    (h : fleet.proceed? net post scene = none) :
    (Flight.refreshing height fleet refreshed).takenIn =
      fleet.finished.takeWhile fun l => !l.unwinds := by
  rw [Fleet.proceed?] at h
  rw [Flight.takenIn]
  cases next : fleet.upcoming with
  | collecting => rfl
  | running => simp [next] at h
  | waking time => simp [next] at h

section Resuming

variable {permit : Nat} {post : Post} {stop : Flight → Bool}

/-- The rest of what happens to the block in flight are moves. -/
def Resumes (s : Session σ) (permit : Nat) (f : Flight) (scene : Scene σ)
    (r : Scene σ × Progress) : Prop :=
  ({ s with scene := scene, flights := [(permit, f)] } : Session σ).Becomes
    (s.settle permit r.1 r.2).1

theorem resumes_stepsUntil (held : s.guard.held = some permit) (others : s.otherFlights permit = [])
    {next : Flight → Scene σ → Scene σ × Progress}
    (resumes : ∀ f scene, s.Resumes permit f scene (next f scene)) (depth steps : Nat) (f : Flight)
    (scene : Scene σ) : s.Resumes permit f scene
      (f.stepsUntil s.network s.traders post stop next depth steps scene) := by
  induction steps generalizing f scene with
  | zero =>
    rw [Resumes, Flight.stepsUntil, settle, others]
    exact .refl _
  | succ steps ih =>
    rw [Flight.stepsUntil]
    split_ifs
    · rw [Resumes, settle, others]
      exact .refl _
    · let now : Session σ := { s with scene := scene, flights := [(permit, f)] }
      have step := now.becomes_happen (.resume post permit)
      rw [happen_resume (s := now) rfl held] at step
      dsimp only [now] at step
      rcases result : f.step s.network s.traders post scene with ⟨scene', f' | r⟩ <;>
        rw [result] at step
      · dsimp only
        split_ifs
        · exact step.trans (resumes f' scene')
        · exact step.trans (ih f' scene')
      · rw [Resumes, settle, others, Guard.release, if_pos held]
        exact step

theorem resumes_roundsUntil (held : s.guard.held = some permit)
    (others : s.otherFlights permit = []) (rounds : Nat) (f : Flight) (scene : Scene σ) :
    s.Resumes permit f scene (f.roundsUntil s.network s.traders post stop rounds scene) := by
  induction rounds generalizing f scene with
  | zero =>
    refine resumes_stepsUntil held others (fun f scene => ?_) _ _ f scene
    rw [Resumes, settle, others]
    exact .refl _
  | succ rounds ih => exact resumes_stepsUntil held others ih _ _ f scene

/-- A block that goes on until a point is reached makes some moves. -/
theorem becomes_resumeUntil {f : Flight} (one : s.flights = [(permit, f)])
    (held : s.guard.held = some permit) (permit' : Nat) :
    s.Becomes (s.resumeUntil post stop permit').1 := by
  rw [resumeUntil]
  cases found : s.flight? permit' with
  | none => exact .refl s
  | some f' =>
    obtain rfl := permit_eq_of_one one found
    obtain rfl : f = f' := by simpa [flight?, one] using found
    have resumes : s.Resumes permit f s.scene
        (f.roundsUntil s.network s.traders post stop (f.depth s.traders) s.scene) :=
      resumes_roundsUntil held (by simp [otherFlights, one]) _ f s.scene
    rw [Resumes, ← one] at resumes
    exact resumes

end Resuming

end Session

end CrossBook.Engine
