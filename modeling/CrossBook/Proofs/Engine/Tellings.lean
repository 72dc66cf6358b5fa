import CrossBook.Proofs.Engine.Solos

/-!
# What readings come to

A call that only reads orders of pools is told what the world it is made in has to tell, provided
that its waits are over by its deadline. Whatever waits beside it, it is looked at when its timers
are due and never later. So the value of a program that only reads is known before it runs, and the
turns of a fleet of such programs only decide in which order their values come.

## Main definitions

* `Engine.Network.Tells` — readings leave a view as it is, which tells what they come to
* `Engine.Network.told` — what a call comes to in a world
* `Engine.Slot.OnCourse` — a call on its way to what it is told
* `Engine.Program.foretold?` — the value of a program that only reads
* `Engine.Task.OnCourse`, `Engine.Fleet.OnCourse` — programs on their way to their values

## Main results

* `Engine.Network.onCourse_begin`, `Network.onCourse_look` — one call
* `Engine.Program.onCourse_advance`, `Waiting.onCourse_run` — one program
* `Engine.Fleet.OnCourse.proceed` — the programs of a fleet stay on course, whatever happens next
-/

namespace CrossBook.Engine

variable {σ τ α : Type} {net : Network σ} {view : σ → τ} {world : σ} {c : Call} {calls : List Call}

/-! ### Calls that only read -/

/-- The call only reads orders of pools. -/
def Call.readsPool : Call → Bool
  | activeTicks _ => true
  | restingOrders _ _ => true
  | _ => false

theorem Call.known?_of_readsPool (reads : c.readsPool) : c.known? = none := by
  cases c <;> first | rfl | cases reads

/-- What is read has no references in it. -/
theorem Call.ResultsAlike.eq_of_readsPool {r r' : c.Result} (h : c.ResultsAlike r r')
    (reads : c.readsPool) : r = r' := by
  cases h with
  | error e => rfl
  | ok alike => cases c <;> first | exact congrArg Except.ok alike | cases reads

/-- Reading orders of pools changes nothing in a view of the world, and where the view is the same,
so are the answers and the waits of such calls. -/
structure Network.Tells (net : Network σ) (view : σ → τ) : Prop where
  waits : ∀ {w w'}, view w = view w' → ∀ c : Call, c.readsPool → net.waits c w = net.waits c w'
  answer : ∀ {w w'}, view w = view w' →
    ∀ c : Call, c.readsPool → (net.answer c w).2 = (net.answer c w').2
  view_eq : ∀ c : Call, c.readsPool → ∀ w, view (net.answer c w).1 = view w

theorem Network.Impartial.tells (impartial : net.Impartial view) : net.Tells view where
  waits same c _ := impartial.waits same c
  answer same c reads := (impartial.answer same c).eq_of_readsPool reads
  view_eq c _ := impartial.view_eq c

/-- The time that waits take, one after the other. -/
def timeOf (waits : List Nat) : Nat := (waits.map fun wait => min wait longestWait).sum

theorem timeOf_cons (wait : Nat) (waits : List Nat) :
    timeOf (wait :: waits) = min wait longestWait + timeOf waits := by
  simp [timeOf]

/-- Waits that take no time do not count. -/
theorem timeOf_filter (waits : List Nat) : timeOf (waits.filter (· ≠ 0)) = timeOf waits := by
  induction waits with
  | nil => rfl
  | cons wait waits ih =>
    by_cases zero : wait = 0
    · rw [List.filter_cons_of_neg (by simpa using zero), ih, timeOf_cons, zero, Nat.zero_min,
        Nat.zero_add]
    · rw [List.filter_cons_of_pos (by simpa using zero), timeOf_cons, timeOf_cons, ih]

/-- What a call comes to that is made in a world: its answer when its waits are over by its
deadline, and else its timeout. -/
def Network.told (net : Network σ) (world : σ) (c : Call) : c.Result :=
  if timeOf (net.waits c world) ≤ min net.limit longestWait then (net.answer c world).2
  else net.timeout c

/-- A call is on its way to what it is told: that is what it was answered, or what it will be when
it is looked at whenever one of its timers is due. -/
def Slot.OnCourse (net : Network σ) (world : σ) (now : Nat) (c : Call) : Slot c → Prop
  | .answered r => r = net.told world c
  | .waiting wait later deadline =>
    now ≤ wait.time ∧ now ≤ deadline.time ∧ 0 ∉ later ∧
      net.told world c =
        if wait.time + timeOf later ≤ deadline.time then (net.answer c world).2 else net.timeout c

/-! ### One call -/

namespace Network

variable {s : Scene σ}

theorem onCourse_begin (tells : net.Tells view) (reads : c.readsPool)
    (same : view s.world = view world) : (net.begin c s).2.OnCourse net world s.now c := by
  unfold begin
  rw [Call.known?_of_readsPool reads, tells.waits same c reads]
  have time := timeOf_filter (net.waits c world)
  dsimp only
  cases left : (net.waits c world).filter (· ≠ 0) with
  | nil =>
    rw [left] at time
    have told : net.told world c = (net.answer c world).2 := if_pos (time ▸ Nat.zero_le _)
    exact (tells.answer same c reads).trans told.symm
  | cons first later =>
    have takes : ∀ wait ∈ first :: later, wait ≠ 0 := by
      intro wait among
      rw [← left] at among
      simpa using (List.mem_filter.mp among).2
    have waits := s.now_lt_setTimer (takes first List.mem_cons_self)
    rw [left, timeOf_cons] at time
    dsimp only [Scene.setTimer] at waits ⊢
    split_ifs with none
    · -- the call may take no time, and its first wait takes some
      refine (if_neg ?_).symm
      rw [limit, none, ← time]
      omega
    · refine ⟨waits.le, Nat.le_add_right .., fun zero => ?_, ?_⟩
      · exact takes 0 (List.mem_cons_of_mem _ zero) rfl
      · have both : timeOf (net.waits c world) ≤ min net.limit longestWait ↔
            s.now + min first longestWait + timeOf later ≤ s.now + min net.limit longestWait := by
          omega
        exact if_congr both rfl rfl

/-- A call that goes on waiting stays on course: its deadline only comes first when its waits would
be over too late. -/
theorem onCourse_unlessLate {wait deadline : Timer} {later : List Nat} {now : Nat}
    (ahead : now < wait.time) (due : now ≤ deadline.time) (takes : 0 ∉ later)
    (told : net.told world c =
      if wait.time + timeOf later ≤ deadline.time then (net.answer c world).2 else net.timeout c) :
    (net.unlessLate c wait later deadline now).OnCourse net world now c := by
  rw [unlessLate]
  split_ifs with late
  · rw [if_neg (by omega)] at told
    exact told.symm
  · exact ⟨ahead.le, due, takes, told⟩

theorem onCourse_look (tells : net.Tells view) (reads : c.readsPool)
    (same : view s.world = view world) {slot : Slot c} (h : slot.OnCourse net world s.now c) :
    (net.look c slot s).2.OnCourse net world s.now c := by
  cases slot with
  | answered r => exact h
  | waiting wait later deadline =>
    obtain ⟨ahead, due, takes, told⟩ := h
    unfold look
    dsimp only
    split_ifs with passed
    · -- nobody has missed the timer, so the wait is over just now
      obtain now := le_antisymm ahead passed
      cases later with
      | nil =>
        rw [if_pos (now ▸ due)] at told
        exact (tells.answer same c reads).trans told.symm
      | cons next later =>
        obtain ⟨some_time, takes⟩ := not_or.mp (mt List.mem_cons.mpr takes)
        refine onCourse_unlessLate (s.now_lt_setTimer (Ne.symm some_time)) due takes ?_
        rw [told, timeOf_cons, ← now, ← Nat.add_assoc]
        rfl
    · exact onCourse_unlessLate (Nat.lt_of_not_le passed) due takes told

end Network

/-! ### Calls made together -/

/-- What each of some calls is given. -/
def Answers.given {f : Call → Type} (give : ∀ c, f c) : (calls : List Call) → Answers f calls
  | [] => .nil
  | c :: calls => .cons (give c) (given give calls)

section Together

variable {s : Scene σ} {slots : Answers Slot calls}

theorem Network.onCourse_beginAll (tells : net.Tells view) (reads : ∀ c ∈ calls, c.readsPool)
    (same : view s.world = view world) :
    (net.beginAll calls s).2.All (Slot.OnCourse net world s.now) := by
  induction calls generalizing s with
  | nil => trivial
  | cons c calls ih =>
    obtain ⟨first, others⟩ := List.forall_mem_cons.mp reads
    have now : (net.begin c s).1.now = s.now := congrArg Prod.fst (net.clock_begin c s)
    have rest := ih others ((view_begin (tells.view_eq c first) s).trans same)
    rw [now] at rest
    exact ⟨onCourse_begin tells first same, rest⟩

theorem Network.onCourse_lookAll (tells : net.Tells view) (reads : ∀ c ∈ calls, c.readsPool)
    (same : view s.world = view world) (h : slots.All (Slot.OnCourse net world s.now)) :
    (net.lookAll slots s).2.All (Slot.OnCourse net world s.now) := by
  induction slots generalizing s with
  | nil => trivial
  | @cons c calls slot slots ih =>
    obtain ⟨first, others⟩ := List.forall_mem_cons.mp reads
    have now : (net.look c slot s).1.now = s.now := congrArg Prod.fst (net.clock_look slot s)
    have rest := ih (s := (net.look c slot s).1) others
      ((view_look (tells.view_eq c first) slot s).trans same) (now.symm ▸ h.2)
    rw [now] at rest
    exact ⟨onCourse_look tells first same h.1, rest⟩

/-- Calls on course that have all ended were told what they are told. -/
theorem results?_of_onCourse {now : Nat} {results : Answers Call.Result calls}
    (h : slots.All (Slot.OnCourse net world now)) (ended : results? slots = some results) :
    results = .given (net.told world) calls := by
  induction slots with
  | nil => exact (Option.some.inj ended).symm
  | cons slot slots ih =>
    cases slot with
    | waiting wait later deadline => cases ended
    | answered r =>
      obtain ⟨rest, all, rfl⟩ := Option.map_eq_some_iff.mp ended
      obtain ⟨rfl, others⟩ := h
      rw [ih others all]
      rfl

/-- When the clock moves to a time before their timers, calls stay on course. -/
theorem onCourse_of_le_timers {now time : Nat} (h : slots.All (Slot.OnCourse net world now))
    (first : ∀ t ∈ timers slots, time ≤ t.time) :
    slots.All (Slot.OnCourse net world (max now time)) := by
  induction slots with
  | nil => trivial
  | cons slot slots ih =>
    obtain ⟨one, others⟩ := h
    rw [timers_cons, List.forall_mem_append] at first
    refine ⟨?_, ih others first.2⟩
    cases slot with
    | answered r => exact one
    | waiting wait later deadline =>
      obtain ⟨ahead, due, rest⟩ := one
      exact ⟨max_le ahead (first.1 _ (by simp [Slot.timers])),
        max_le due (first.1 _ (by simp [Slot.timers])), rest⟩

end Together

/-! ### One program -/

/-- The value of a program that asks for nothing but orders of pools, and waits until it has been
told everything. -/
def Program.foretold? (tell : ∀ c : Call, c.Result) : {n : Nat} → Program α n → Option α
  | _, .done a => some a
  | _, .ask calls .untilAll k =>
    if calls.all Call.readsPool then (k (.given tell calls)).foretold? tell else none
  | _, _ => none

theorem Program.foretold?_ask {tell : ∀ c : Call, c.Result} {n : Nat}
    (k : Joined .untilAll calls → Program α n) (reads : ∀ c ∈ calls, c.readsPool) :
    (Program.ask calls .untilAll k).foretold? tell = (k (.given tell calls)).foretold? tell :=
  if_pos (List.all_eq_true.mpr reads)

theorem Program.foretold?_call {tell : ∀ c : Call, c.Result} {n : Nat}
    (k : c.Result → Program α n) (reads : c.readsPool) :
    (Program.call c k).foretold? tell = (k (tell c)).foretold? tell :=
  foretold?_ask _ (List.forall_mem_singleton.mpr reads)

/-- The value of a program that waits, when it has been told everything. -/
def Waiting.foretold? (tell : ∀ c : Call, c.Result) (w : Waiting α) : Option α :=
  (Program.ask w.calls w.joining w.resume).foretold? tell

/-- A program is on its way to a value: it has ended with it, or waits for calls that are on course
and is foretold to come to it. -/
def Task.OnCourse (net : Network σ) (world : σ) (now : Nat) (a : α) : Task α → Prop
  | .finished b => b = a
  | .waiting w => w.slots.All (Slot.OnCourse net world now) ∧ w.foretold? (net.told world) = some a

/-- The value of a program that waits or has ended. -/
def Task.foretold? (tell : ∀ c : Call, c.Result) : Task α → Option α
  | .finished a => some a
  | .waiting w => w.foretold? tell

theorem Task.OnCourse.foretold? {task : Task α} {now : Nat} {a : α}
    (h : task.OnCourse net world now a) : task.foretold? (net.told world) = some a := by
  cases task with
  | finished b => exact congrArg some h
  | waiting w => exact h.2

/-- After the turn of a program neither the stores nor the time have changed, nor has a view of the
world, and the program is on its way to a value. -/
structure Turned (net : Network σ) (view : σ → τ) (world : σ) (a : α) (s : Scene σ)
    (r : Scene σ × Task α) : Prop where
  stores_eq : r.1.stores = s.stores
  now_eq : r.1.now = s.now
  view_eq : view r.1.world = view world
  onCourse : r.2.OnCourse net world s.now a

section Turn

variable {s s' : Scene σ} {a : α}

theorem Turned.after {r : Scene σ × Task α} (h : Turned net view world a s' r)
    (stores : s'.stores = s.stores) (now : s'.now = s.now) : Turned net view world a s r :=
  ⟨h.stores_eq.trans stores, h.now_eq.trans now, h.view_eq, now ▸ h.onCourse⟩

theorem Program.onCourse_advance (tells : net.Tells view) {n : Nat} {p : Program α n}
    (same : view s.world = view world) (value : p.foretold? (net.told world) = some a) :
    Turned net view world a s (advance net p s) := by
  induction p generalizing s with
  | done b => exact ⟨rfl, rfl, same, Option.some.inj value⟩
  | look k _ => cases value
  | change f next _ => cases value
  | ask calls joining k ih =>
    cases joining with
    | untilFailure => cases value
    | untilAll =>
      have whole := value
      rw [foretold?] at value
      split_ifs at value with all
      have reads : ∀ c ∈ calls, c.readsPool := List.all_eq_true.mp all
      have stores := net.stores_beginAll calls s
      have now : (net.beginAll calls s).1.now = s.now :=
        congrArg Prod.fst (net.clock_beginAll calls s)
      have still : view (net.beginAll calls s).1.world = view world :=
        (Network.view_beginAll (fun c among => tells.view_eq c (reads c among)) s).trans same
      have onCourse := Network.onCourse_beginAll tells reads same
      rw [advance]
      cases joined : joined? 0 (net.beginAll calls s).2 .untilAll with
      | none =>
        simp only [joined]
        exact ⟨stores, now, still, onCourse, whole⟩
      | some results =>
        simp only [joined]
        obtain rfl := results?_of_onCourse onCourse joined
        exact (ih _ still value).after stores now

theorem Waiting.onCourse_run (tells : net.Tells view) {w : Waiting α}
    (same : view s.world = view world) (h : w.slots.All (Slot.OnCourse net world s.now))
    (value : w.foretold? (net.told world) = some a) :
    Turned net view world a s (w.run net s) := by
  obtain ⟨n, calls, joining, slots, looks, resume⟩ := w
  cases joining with
  | untilFailure => cases value
  | untilAll =>
    have whole := value
    rw [foretold?, Program.foretold?] at value
    split_ifs at value with all
    have reads : ∀ c ∈ calls, c.readsPool := List.all_eq_true.mp all
    have stores := net.stores_lookAll slots s
    have now : (net.lookAll slots s).1.now = s.now := congrArg Prod.fst (net.clock_lookAll slots s)
    have still : view (net.lookAll slots s).1.world = view world :=
      (Network.view_lookAll (fun c among => tells.view_eq c (reads c among)) slots s).trans same
    have onCourse := Network.onCourse_lookAll tells reads same h
    rw [run]
    dsimp only
    cases joined : joined? looks (net.lookAll slots s).2 .untilAll with
    | none => exact ⟨stores, now, still, onCourse, whole⟩
    | some results =>
      obtain rfl := results?_of_onCourse onCourse joined
      exact (Program.onCourse_advance tells still value).after stores now

end Turn

/-! ### Programs side by side -/

namespace Fleet

/-- The values of a fleet whose programs only read: those of the programs that have not ended, and
of those that have, some of which have been collected. -/
def values (net : Network σ) (world : σ) (collected : List α) (f : Fleet α) : List (Option α) :=
  (f.inLine ++ f.waiting).map (Waiting.foretold? (net.told world)) ++
    (collected ++ f.finished).map some

/-- The programs of a fleet are on their way to some values, in whatever order. -/
structure OnCourse (net : Network σ) (view : σ → τ) (world : σ) (collected values : List α)
    (f : Fleet α) (s : Scene σ) : Prop where
  view_eq : view s.world = view world
  slots : ∀ w ∈ f.inLine ++ f.waiting, w.slots.All (Slot.OnCourse net world s.now)
  values : (f.values net world collected).Perm (values.map some)

variable {collected values : List α} {f f' : Fleet α} {s s' : Scene σ}

/-- A fleet of programs that are foretold to come to some values is on its way to them. -/
theorem onCourse_launch {n : Nat} {programs : List (Program α n)}
    (foretold : programs.map (Program.foretold? (net.told world)) = values.map some)
    (same : view s.world = view world) :
    (launch programs).OnCourse net view world [] values s := by
  refine ⟨same, fun w among => ?_, ?_⟩
  · rw [launch, List.append_nil] at among
    obtain ⟨p, -, rfl⟩ := List.mem_map.mp among
    trivial
  · rw [Fleet.values, launch, List.append_nil, List.append_nil, List.map_nil, List.append_nil,
      List.map_map, ← foretold]
    exact .refl _

theorem values_add (task : Task α) : ((f.add task).values net world collected).Perm
    (task.foretold? (net.told world) :: f.values net world collected) := by
  cases task with
  | finished a =>
    have last : (f.add (.finished a)).values net world collected =
        f.values net world collected ++ [some a] := by
      simp only [Fleet.values, add, List.map_append, List.append_assoc, List.map_singleton]
    rw [last]
    exact List.perm_append_singleton _ _
  | waiting w =>
    have last : (f.inLine ++ (f.waiting ++ [w])).map (Waiting.foretold? (net.told world)) =
        (f.inLine ++ f.waiting).map (Waiting.foretold? (net.told world)) ++
          [w.foretold? (net.told world)] := by
      rw [← List.append_assoc, List.map_append, List.map_singleton]
    rw [Fleet.values, add, last]
    exact (List.perm_append_singleton _ _).append_right _

/-- One more turn of the line. -/
theorem OnCourse.next (tells : net.Tells view) (h : f.OnCourse net view world collected values s)
    {w : Waiting α} {rest : List (Waiting α)} (first : f.inLine = w :: rest) :
    ({ f with inLine := rest }.add (w.run net s).2).OnCourse net view world collected values
        (w.run net s).1 ∧ (w.run net s).1.stores = s.stores := by
  have all := h.values
  rw [Fleet.values, first, List.cons_append, List.map_cons, List.cons_append] at all
  obtain ⟨one, others⟩ := List.forall_mem_cons.mp (first ▸ h.slots)
  obtain ⟨a, -, value⟩ := List.mem_map.mp (all.subset List.mem_cons_self)
  -- the first program is on its way to one of the values, and still is after its turn
  rw [← value] at all
  obtain ⟨stores, now, same, onCourse⟩ := Waiting.onCourse_run tells h.view_eq one value.symm
  refine ⟨⟨same, fun v among => ?_, (values_add _).trans ?_⟩, stores⟩
  · rw [now]
    cases task : (w.run net s).2 with
    | finished b =>
      rw [task] at among
      exact others v among
    | waiting w' =>
      rw [task] at onCourse among
      rw [add, ← List.append_assoc] at among
      exact List.forall_mem_append.mpr ⟨others, List.forall_mem_singleton.mpr onCourse.1⟩ v among
  · rw [onCourse.foretold?]
    exact all

/-- Some turns of the line. -/
theorem OnCourse.run (tells : net.Tells view) (count : Nat)
    (h : f.OnCourse net view world collected values s) :
    (f.run net count s).2.OnCourse net view world collected values (f.run net count s).1 ∧
      (f.run net count s).1.stores = s.stores := by
  induction count generalizing f s with
  | zero => exact ⟨h, rfl⟩
  | succ count ih =>
    rw [Fleet.run]
    cases first : f.inLine with
    | nil => exact ⟨h, rfl⟩
    | cons w rest =>
      obtain ⟨onCourse, stores⟩ := h.next tells first
      obtain ⟨onCourse', stores'⟩ := ih onCourse
      exact ⟨onCourse', stores'.trans stores⟩

/-- The clock moves to the next timer of all. -/
theorem OnCourse.wake (h : f.OnCourse net view world collected values s) (line : f.inLine = [])
    {time : Nat} (next : f.nextTime? = some time) :
    (f.wake time).OnCourse net view world collected values { s with now := max s.now time } := by
  have moved := f.perm_wake time
  refine ⟨h.view_eq, fun w among => ?_, .trans ?_ h.values⟩
  · have waits := moved.subset among
    refine onCourse_of_le_timers (h.slots w waits) fun t set => ?_
    -- nobody is in line, so the next timer is not later than those of anybody
    rw [line, List.nil_append] at waits
    refine (List.min?_eq_some_iff.mp next).2 _ (List.mem_map_of_mem (List.mem_flatten.mpr ?_))
    exact ⟨_, List.mem_map_of_mem waits, set⟩
  · exact (moved.map _).append_right _

/-- The programs of a fleet stay on course until results are to be collected, and the stores stay as
they are. -/
theorem OnCourse.proceed (tells : net.Tells view) {post : Post}
    (h : f.OnCourse net view world collected values s)
    (proceeds : f.proceed? net post s = some (s', f')) :
    f'.OnCourse net view world collected values s' ∧ s'.stores = s.stores := by
  unfold proceed? at proceeds
  split at proceeds
  · cases proceeds
  · obtain ⟨rfl, rfl⟩ := Prod.mk.inj (Option.some.inj proceeds)
    have onCourse (dropped : Nat) :
        f.OnCourse net view world collected values { s with dropped := dropped } :=
      ⟨h.view_eq, h.slots, h.values⟩
    cases room : post.room with
    | none => exact (onCourse 0).run tells _
    | some n => exact (onCourse (s.dropped - n)).run tells _
  · next waking =>
      obtain ⟨rfl, rfl⟩ := Prod.mk.inj (Option.some.inj proceeds)
      obtain ⟨-, line, next⟩ := upcoming_eq_waking_iff.mp waking
      exact ⟨h.wake line next, rfl⟩

/-- Values are collected, and the stores may be changed. -/
theorem OnCourse.collect (h : f.OnCourse net view world collected values s) (stores : Stores) :
    ({ f with finished := [] } : Fleet α).OnCourse net view world (collected ++ f.finished) values
      { s with stores := stores } :=
  ⟨h.view_eq, h.slots, by simpa only [Fleet.values, List.append_nil] using h.values⟩

/-- Each value that has come is one of the foretold ones. -/
theorem OnCourse.mem_values (h : f.OnCourse net view world collected values s) {a : α}
    (among : a ∈ collected ++ f.finished) : a ∈ values := by
  have all := h.values.subset (List.mem_append_right _ (List.mem_map_of_mem among))
  exact (List.mem_map_of_injective (Option.some_injective α)).mp all

/-- When nobody is left, all values have come. -/
theorem OnCourse.complete (h : f.OnCourse net view world collected values s) (done : f.isDone) :
    (collected ++ f.finished).Perm values := by
  rw [isDone, Bool.and_eq_true, List.isEmpty_iff, List.isEmpty_iff] at done
  have all := h.values
  rw [Fleet.values, done.1, done.2] at all
  exact (List.map_perm_map_iff (Option.some_injective α)).mp all

end Fleet

end CrossBook.Engine
