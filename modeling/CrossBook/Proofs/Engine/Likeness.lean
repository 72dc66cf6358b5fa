import CrossBook.Proofs.Engine.Endings
import Mathlib.Data.List.DropRight
import Mathlib.Data.Option.Basic

/-!
# Programs that are alike

Two programs are alike when neither the order ids and transaction hashes they are answered nor what
else differs in their surroundings makes a difference to what they do: they make the same calls at
the same times, and end with values that agree.

## Main definitions

* `Engine.unnumbered` — a reference without the number at its end
* `Engine.Network.Impartial` — nothing but references depends on what was sent before
* `Engine.Kinship` — what two programs have to see alike, and what they have to agree on
* `Engine.Program.Alike`, `Waiting.Alike`, `Task.Alike` — programs that are alike

## Main results

* `Engine.Program.Alike.advance`, `Waiting.Alike.run` — programs stay alike when their turns come
-/

namespace CrossBook.Engine

open Text

variable {σ τ α β : Type}

/-! ### References -/

/-- A reference without the number at its end. -/
def unnumbered (reference : String) : String := String.ofList (reference.toList.rdropWhile isDigit)

/-- A reply without the numbers of its references. -/
def Call.unnumber : (c : Call) → c.Reply → c.Reply
  | .placeOrder _, id => unnumbered id
  | .swap _, r => { (r : Receipt) with hash := unnumbered (r : Receipt).hash }
  | .execute _ _, r => { (r : Receipt) with hash := unnumbered (r : Receipt).hash }
  | .venueBalances, a | .venueMinimums _, a | .chainBalances _, a | .activeTicks _, a
  | .restingOrders _ _, a | .orderBook _ _, a | .decimals _, a | .price _ _, a
  | .simulate _ _, a => a

/-- Two replies to a call that differ only by the numbers of references. -/
def Call.RepliesAlike (c : Call) (a a' : c.Reply) : Prop := c.unnumber a = c.unnumber a'

/-- Two results of a call that differ only by the numbers of references. -/
inductive Call.ResultsAlike (c : Call) : c.Result → c.Result → Prop
  | error (e : Error) : ResultsAlike c (.error e) (.error e)
  | ok {a a' : c.Reply} (alike : c.RepliesAlike a a') : ResultsAlike c (.ok a) (.ok a')

/-- Something for each of some calls, alike call by call. -/
inductive Answers.Alike {f : Call → Type} (P : ∀ c, f c → f c → Prop) :
    {calls : List Call} → Answers f calls → Answers f calls → Prop
  | nil : Alike P .nil .nil
  | cons {c : Call} {calls : List Call} {a a' : f c} {rest rest' : Answers f calls}
      (first : P c a a') (others : Alike P rest rest') : Alike P (.cons a rest) (.cons a' rest')

/-- What waiting comes to, alike call by call. -/
def Joined.Alike : {joining : Joining} → {calls : List Call} →
    Joined joining calls → Joined joining calls → Prop
  | .untilAll, _, results, results' => Answers.Alike Call.ResultsAlike results results'
  | .untilFailure, _, .ok replies, .ok replies' => Answers.Alike Call.RepliesAlike replies replies'
  | .untilFailure, _, .error e, .error e' => e = e'
  | .untilFailure, _, _, _ => False

/-- Nothing of what a network answers depends on what it was sent before, but the numbers of
references: neither that nor how long calls wait, as far as worlds look the same in a view. -/
structure Network.Impartial (net : Network σ) (view : σ → τ) : Prop where
  waits : ∀ {w w'}, view w = view w' → ∀ c : Call, net.waits c w = net.waits c w'
  answer : ∀ {w w'}, view w = view w' →
    ∀ c : Call, c.ResultsAlike (net.answer c w).2 (net.answer c w').2
  view_eq : ∀ (c : Call) w, view (net.answer c w).1 = view w

/-! ### The view of the world stays the same -/

namespace Network

variable {net : Network σ} {view : σ → τ} {c : Call} {calls : List Call}

/-- A call whose answers leave a view as it is leaves it when it is made. -/
theorem view_begin (keeps : ∀ w, view (net.answer c w).1 = view w) (s : Scene σ) :
    view (net.begin c s).1.world = view s.world := by
  unfold begin
  split
  · rfl
  · split
    · exact keeps s.world
    · split_ifs <;> rfl

theorem view_look (keeps : ∀ w, view (net.answer c w).1 = view w) (slot : Slot c) (s : Scene σ) :
    view (net.look c slot s).1.world = view s.world := by
  cases slot with
  | answered r => rfl
  | waiting wait later deadline =>
    unfold look
    dsimp only
    split_ifs
    · cases later with
      | nil => exact keeps s.world
      | cons next later => rfl
    · rfl

theorem view_beginAll (keeps : ∀ c ∈ calls, ∀ w, view (net.answer c w).1 = view w)
    (s : Scene σ) : view (net.beginAll calls s).1.world = view s.world := by
  induction calls generalizing s with
  | nil => rfl
  | cons c calls ih =>
    obtain ⟨first, others⟩ := List.forall_mem_cons.mp keeps
    rw [beginAll, ih others, view_begin first]

theorem view_lookAll (keeps : ∀ c ∈ calls, ∀ w, view (net.answer c w).1 = view w)
    (slots : Answers Slot calls) (s : Scene σ) :
    view (net.lookAll slots s).1.world = view s.world := by
  induction slots generalizing s with
  | nil => rfl
  | cons slot slots ih =>
    obtain ⟨first, others⟩ := List.forall_mem_cons.mp keeps
    rw [lookAll, ih others, view_look first]

end Network

namespace Network.Impartial

variable {net : Network σ} {view : σ → τ} (impartial : net.Impartial view)

include impartial

theorem view_begin (c : Call) (s : Scene σ) : view (net.begin c s).1.world = view s.world :=
  Network.view_begin (impartial.view_eq c) s

theorem view_look {c : Call} (slot : Slot c) (s : Scene σ) :
    view (net.look c slot s).1.world = view s.world :=
  Network.view_look (impartial.view_eq c) slot s

theorem view_beginAll (calls : List Call) (s : Scene σ) :
    view (net.beginAll calls s).1.world = view s.world :=
  Network.view_beginAll (fun c _ => impartial.view_eq c) s

theorem view_lookAll {calls : List Call} (slots : Answers Slot calls) (s : Scene σ) :
    view (net.lookAll slots s).1.world = view s.world :=
  Network.view_lookAll (fun c _ => impartial.view_eq c) slots s

theorem view_advance {n : Nat} (p : Program α n) (s : Scene σ) :
    view (advance net p s).1.world = view s.world := by
  induction p generalizing s with
  | done a => rfl
  | look k ih => exact ih s.stores s
  | change f next ih => exact ih { s with stores := f s.stores }
  | ask calls joining k ih =>
    rw [advance]
    cases joined : joined? 0 (net.beginAll calls s).2 joining with
    | some answer => simp only [joined, ih, impartial.view_beginAll]
    | none => simp only [joined, impartial.view_beginAll]

theorem view_run (w : Waiting α) (s : Scene σ) : view (w.run net s).1.world = view s.world := by
  rw [Waiting.run]
  cases joined : joined? w.looks (net.lookAll w.slots s).2 w.joining with
  | some answer => simp only [joined, impartial.view_advance, impartial.view_lookAll]
  | none => simp only [joined, impartial.view_lookAll]

theorem view_fleet (count : Nat) (f : Fleet α) (s : Scene σ) :
    view (f.run net count s).1.world = view s.world := by
  induction count generalizing f s with
  | zero => rfl
  | succ count ih =>
    rw [Fleet.run]
    cases f.inLine with
    | nil => rfl
    | cons w rest => exact (ih _ _).trans (impartial.view_run w s)

theorem view_proceed? {post : Post} {f f' : Fleet α} {s s' : Scene σ}
    (proceeds : f.proceed? net post s = some (s', f')) : view s'.world = view s.world := by
  unfold Fleet.proceed? at proceeds
  split at proceeds
  · cases proceeds
  · obtain ⟨rfl, rfl⟩ := Prod.mk.inj (Option.some.inj proceeds)
    cases post with
    | foreground => exact impartial.view_fleet _ f _
    | background => exact impartial.view_fleet _ f _
  · obtain ⟨rfl, rfl⟩ := Prod.mk.inj (Option.some.inj proceeds)
    rfl

end Network.Impartial

/-! ### Calls in step -/

/-- The worlds of two scenes look the same, and the clock of the first is ahead by some time. -/
structure Scene.InStep (view : σ → τ) (lead : Nat) (s s₀ : Scene σ) : Prop where
  world : view s.world = view s₀.world
  now : s.now = s₀.now + lead

/-- Two calls have come equally far, the first some time after the second. -/
inductive Slot.Alike (lead : Nat) (c : Call) : Slot c → Slot c → Prop
  | answered {r r₀ : c.Result} (alike : c.ResultsAlike r r₀) :
      Alike lead c (.answered r) (.answered r₀)
  | waiting {wait wait₀ deadline deadline₀ : Timer} {later : List Nat}
      (waits : wait.time = wait₀.time + lead) (due : deadline.time = deadline₀.time + lead) :
      Alike lead c (.waiting wait later deadline) (.waiting wait₀ later deadline₀)

section InStep

variable {net : Network σ} {view : σ → τ} {lead : Nat} {s s₀ : Scene σ} {c : Call}
  {calls : List Call}

theorem Call.resultsAlike_refl (r : c.Result) : c.ResultsAlike r r := by
  cases r with
  | error e => exact .error e
  | ok a => exact .ok rfl

theorem Call.ResultsAlike.symm {r r' : c.Result} (h : c.ResultsAlike r r') :
    c.ResultsAlike r' r := by
  cases h with
  | error e => exact .error e
  | ok alike => exact .ok alike.symm

theorem Call.ResultsAlike.trans {r r' r'' : c.Result} (h : c.ResultsAlike r r')
    (h' : c.ResultsAlike r' r'') : c.ResultsAlike r r'' := by
  cases h with
  | error e => exact h'
  | ok alike =>
    cases h' with
    | ok alike' => exact .ok (alike.trans alike')

namespace Scene.InStep

theorem setTimer (h : s.InStep view lead s₀) (wait : Nat) :
    (s.setTimer wait).2.time = (s₀.setTimer wait).2.time + lead := by
  simp only [Scene.setTimer, h.now]
  omega

theorem of_clock {s' s₀' : Scene σ} (h : s.InStep view lead s₀)
    (same : view s'.world = view s.world) (clock : s'.clock = s.clock)
    (same₀ : view s₀'.world = view s₀.world) (clock₀ : s₀'.clock = s₀.clock) :
    s'.InStep view lead s₀' :=
  ⟨same.trans (h.world.trans same₀.symm), by
    rw [(Prod.mk.inj clock).1, (Prod.mk.inj clock₀).1, h.now]⟩

theorem unlessLate {now now₀ : Nat} {wait wait₀ deadline deadline₀ : Timer} {later : List Nat}
    (clock : now = now₀ + lead) (waits : wait.time = wait₀.time + lead)
    (due : deadline.time = deadline₀.time + lead) :
    Slot.Alike lead c (net.unlessLate c wait later deadline now)
      (net.unlessLate c wait₀ later deadline₀ now₀) := by
  have both : deadline.time ≤ now ↔ deadline₀.time ≤ now₀ := by omega
  rw [Network.unlessLate, Network.unlessLate]
  by_cases late : deadline₀.time ≤ now₀
  · rw [if_pos late, if_pos (both.mpr late)]
    exact .answered (c.resultsAlike_refl _)
  · rw [if_neg late, if_neg (mt both.mp late)]
    exact .waiting waits due

variable (impartial : net.Impartial view)

include impartial

/-- Calls that begin in step go on in step. -/
theorem begin (h : s.InStep view lead s₀) (c : Call) :
    Slot.Alike lead c (net.begin c s).2 (net.begin c s₀).2 := by
  rw [Network.begin, Network.begin, impartial.waits h.world]
  cases c.known? with
  | some a => exact .answered (c.resultsAlike_refl _)
  | none =>
    dsimp only
    cases (net.waits c s₀.world).filter (· ≠ 0) with
    | nil => exact .answered (impartial.answer h.world c)
    | cons first later =>
      dsimp only
      split_ifs
      · exact .answered (c.resultsAlike_refl _)
      · exact .waiting (h.setTimer first) (setTimer ⟨h.world, h.now⟩ _)

/-- Calls that are looked at in step go on in step. -/
theorem look (h : s.InStep view lead s₀) {slot slot₀ : Slot c} (alike : slot.Alike lead c slot₀) :
    Slot.Alike lead c (net.look c slot s).2 (net.look c slot₀ s₀).2 := by
  cases alike with
  | answered alike => exact .answered alike
  | @waiting wait wait₀ _ _ later waits due =>
    have both : wait.time ≤ s.now ↔ wait₀.time ≤ s₀.now := by
      rw [waits, h.now]
      omega
    unfold Network.look
    by_cases passed : wait₀.time ≤ s₀.now
    · simp only [if_pos passed, if_pos (both.mpr passed)]
      cases later with
      | nil => exact .answered (impartial.answer h.world c)
      | cons next later => exact unlessLate h.now (h.setTimer next) due
    · simp only [if_neg passed, if_neg (mt both.mp passed)]
      exact unlessLate h.now waits due

theorem beginAll (h : s.InStep view lead s₀) (calls : List Call) :
    Answers.Alike (Slot.Alike lead) (net.beginAll calls s).2 (net.beginAll calls s₀).2 := by
  induction calls generalizing s s₀ with
  | nil => exact .nil
  | cons c calls ih =>
    exact .cons (h.begin impartial c) (ih (h.of_clock (impartial.view_begin c s)
      (net.clock_begin c s) (impartial.view_begin c s₀) (net.clock_begin c s₀)))

theorem lookAll (h : s.InStep view lead s₀) {slots slots₀ : Answers Slot calls}
    (alike : Answers.Alike (Slot.Alike lead) slots slots₀) :
    Answers.Alike (Slot.Alike lead) (net.lookAll slots s).2 (net.lookAll slots₀ s₀).2 := by
  induction alike generalizing s s₀ with
  | nil => exact .nil
  | @cons c calls slot slot₀ slots slots₀ first others ih =>
    exact .cons (h.look impartial first) (ih (h.of_clock (impartial.view_look slot s)
      (net.clock_look slot s) (impartial.view_look slot₀ s₀) (net.clock_look slot₀ s₀)))

end Scene.InStep

/-! ### What calls in step come to -/

theorem rel_map {γ δ : Type} {R : α → β → Prop} {S : γ → δ → Prop} {a : Option α} {b : Option β}
    {f : α → γ} {g : β → δ} (h : Option.Rel R a b) (carries : ∀ {x y}, R x y → S (f x) (g y)) :
    Option.Rel S (a.map f) (b.map g) := by
  cases h with
  | some related => exact .some (carries related)
  | none => exact .none

theorem rel_bind {γ δ : Type} {R : α → β → Prop} {S : γ → δ → Prop} {a : Option α} {b : Option β}
    {f : α → Option γ} {g : β → Option δ} (h : Option.Rel R a b)
    (carries : ∀ {x y}, R x y → Option.Rel S (f x) (g y)) :
    Option.Rel S (a.bind f) (b.bind g) := by
  cases h with
  | some related => exact carries related
  | none => exact .none

variable {slots slots₀ : Answers Slot calls}

/-- The timers of calls in step are due one after the other alike. -/
theorem timers_of_alike (h : Answers.Alike (Slot.Alike lead) slots slots₀) :
    (timers slots).map (·.time) = (timers slots₀).map (·.time + lead) := by
  induction h with
  | nil => rfl
  | cons first others ih =>
    cases first with
    | answered alike => exact ih
    | waiting waits due => simp only [timers, List.map_cons, waits, due, ih]

theorem failures_of_alike (h : Answers.Alike (Slot.Alike lead) slots slots₀) :
    failures slots = failures slots₀ := by
  induction h with
  | nil => rfl
  | cons first others ih =>
    cases first with
    | waiting waits due => exact congrArg (none :: ·) ih
    | answered alike =>
      cases alike with
      | error e => exact congrArg (some e :: ·) ih
      | ok alike => exact congrArg (none :: ·) ih

theorem rel_results? (h : Answers.Alike (Slot.Alike lead) slots slots₀) :
    Option.Rel (Answers.Alike Call.ResultsAlike) (results? slots) (results? slots₀) := by
  induction h with
  | nil => exact .some .nil
  | cons first others ih =>
    cases first with
    | waiting waits due => exact .none
    | answered alike =>
      rw [results?, results?]
      exact rel_map ih (.cons alike)

theorem rel_replies? {results results₀ : Answers Call.Result calls}
    (h : Answers.Alike Call.ResultsAlike results results₀) :
    Option.Rel (Answers.Alike Call.RepliesAlike) (replies? results) (replies? results₀) := by
  induction h with
  | nil => exact .some .nil
  | cons first others ih =>
    cases first with
    | error e => exact .none
    | ok alike =>
      rw [replies?, replies?]
      exact rel_map ih (.cons alike)

/-- Calls in step are waited for equally long, and come to the same but for references. -/
theorem rel_joined? (h : Answers.Alike (Slot.Alike lead) slots slots₀) (looks : Nat)
    (joining : Joining) :
    Option.Rel Joined.Alike (joined? looks slots joining) (joined? looks slots₀ joining) := by
  have results := rel_results? h
  cases joining with
  | untilAll => exact results
  | untilFailure =>
    have replies : Option.Rel (@Joined.Alike .untilFailure _)
        (((results? slots).bind replies?).map .ok) (((results? slots₀).bind replies?).map .ok) :=
      rel_map (rel_bind results rel_replies?) id
    rw [joined?, joined?, failure?, failure?, failures_of_alike h]
    cases (List.append _ _).findSome? id with
    | some e => exact .some rfl
    | none => exact replies

end InStep

/-! ### Programs -/

/-- What two programs have to see alike of the stores, what the first of them guarantees whenever it
changes them, and what the values have to agree on. -/
structure Kinship (α : Type) where
  Sees : Stores → Stores → Prop
  Guarantees : Stores → Stores → Prop
  Agrees : α → α → Prop
  guarantees_refl : ∀ s, Guarantees s s
  guarantees_trans : ∀ {s s' s''}, Guarantees s s' → Guarantees s' s'' → Guarantees s s''

/-- Two programs do the same, as long as they see the stores alike and are answered alike. -/
inductive Program.Alike (k : Kinship α) : {n : Nat} → Program α n → Program α n → Prop
  | done {n : Nat} {a a₀ : α} (agree : k.Agrees a a₀) :
      Alike k (.done a : Program α n) (.done a₀)
  | look {n : Nat} {p p₀ : Stores → Program α n}
      (alike : ∀ s s₀, k.Sees s s₀ → Alike k (p s) (p₀ s₀)) : Alike k (.look p) (.look p₀)
  | change {n : Nat} {f f₀ : Stores → Stores} {p p₀ : Program α n}
      (guaranteed : ∀ s, k.Guarantees s (f s)) (sees : ∀ s s₀, k.Sees s s₀ → k.Sees (f s) (f₀ s₀))
      (alike : Alike k p p₀) : Alike k (.change f p) (.change f₀ p₀)
  | ask {n : Nat} {calls : List Call} {joining : Joining}
      {p p₀ : Joined joining calls → Program α n}
      (alike : ∀ a a₀, Joined.Alike a a₀ → Alike k (p a) (p₀ a₀)) :
      Alike k (.ask calls joining p) (.ask calls joining p₀)

/-- Two programs wait alike, the first some time after the second. -/
inductive Waiting.Alike (k : Kinship α) (lead : Nat) : Waiting α → Waiting α → Prop
  | mk {n looks : Nat} {calls : List Call} {joining : Joining} {slots slots₀ : Answers Slot calls}
      {p p₀ : Joined joining calls → Program α n}
      (inStep : Answers.Alike (Slot.Alike lead) slots slots₀)
      (alike : ∀ a a₀, Joined.Alike a a₀ → (p a).Alike k (p₀ a₀)) :
      Alike k lead ⟨n, calls, joining, slots, looks, p⟩ ⟨n, calls, joining, slots₀, looks, p₀⟩

/-- Two programs wait alike, or have ended alike. -/
inductive Task.Alike (k : Kinship α) (lead : Nat) : Task α → Task α → Prop
  | waiting {w w₀ : Waiting α} (alike : w.Alike k lead w₀) :
      Alike k lead (.waiting w) (.waiting w₀)
  | finished {a a₀ : α} (agree : k.Agrees a a₀) : Alike k lead (.finished a) (.finished a₀)

section Programs

variable {net : Network σ} {view : σ → τ} {lead n : Nat} {s s₀ : Scene σ} {k : Kinship α}
  {p p₀ : Program α n} {w w₀ : Waiting α}

/-- What becomes of two programs that are alike: the first keeps its guarantee, they see the stores
alike, and they wait or have ended alike. -/
structure Kinship.Continues (k : Kinship α) (lead : Nat) (s : Scene σ)
    (r r₀ : Scene σ × Task α) : Prop where
  guaranteed : k.Guarantees s.stores r.1.stores
  sees : k.Sees r.1.stores r₀.1.stores
  alike : r.2.Alike k lead r₀.2

/-- Programs that are advanced in step go on alike. -/
theorem Program.Alike.advance (impartial : net.Impartial view) (h : p.Alike k p₀)
    (step : s.InStep view lead s₀) (sees : k.Sees s.stores s₀.stores) :
    k.Continues lead s (advance net p s) (Engine.advance net p₀ s₀) := by
  induction h generalizing s s₀ with
  | done agree => exact ⟨k.guarantees_refl _, sees, .finished agree⟩
  | look alike ih => exact ih s.stores s₀.stores sees step sees
  | @change _ f f₀ _ _ guaranteed seen alike ih =>
    have next := @ih { s with stores := f s.stores } { s₀ with stores := f₀ s₀.stores }
      ⟨step.world, step.now⟩ (seen _ _ sees)
    exact ⟨k.guarantees_trans (guaranteed _) next.guaranteed, next.sees, next.alike⟩
  | @ask _ calls joining p p₀ alike ih =>
    have slots := step.beginAll impartial calls
    have step : (net.beginAll calls s).1.InStep view lead (net.beginAll calls s₀).1 :=
      step.of_clock (impartial.view_beginAll calls s) (net.clock_beginAll calls s)
        (impartial.view_beginAll calls s₀) (net.clock_beginAll calls s₀)
    have same := net.stores_beginAll calls s
    have same₀ := net.stores_beginAll calls s₀
    rw [← same, ← same₀] at sees
    -- either both wait for their calls, or both go on with what these came to
    have related := rel_joined? slots 0 joining
    rw [Engine.advance, Engine.advance]
    dsimp only
    generalize joined? 0 (net.beginAll calls s).2 joining = answer at related ⊢
    generalize joined? 0 (net.beginAll calls s₀).2 joining = answer₀ at related ⊢
    cases related with
    | none =>
      refine ⟨?_, sees, .waiting (.mk slots alike)⟩
      rw [same]
      exact k.guarantees_refl _
    | some joined =>
      have next := ih _ _ joined step sees
      exact ⟨same ▸ next.guaranteed, next.sees, next.alike⟩

/-- Programs whose turns come in step go on alike. -/
theorem Waiting.Alike.run (impartial : net.Impartial view) (h : w.Alike k lead w₀)
    (step : s.InStep view lead s₀) (sees : k.Sees s.stores s₀.stores) :
    k.Continues lead s (w.run net s) (w₀.run net s₀) := by
  cases h with
  | @mk n looks calls joining slots slots₀ p p₀ inStep alike =>
  have inStep := step.lookAll impartial inStep
  have step : (net.lookAll slots s).1.InStep view lead (net.lookAll slots₀ s₀).1 :=
    step.of_clock (impartial.view_lookAll slots s) (net.clock_lookAll slots s)
      (impartial.view_lookAll slots₀ s₀) (net.clock_lookAll slots₀ s₀)
  have same := net.stores_lookAll slots s
  have same₀ := net.stores_lookAll slots₀ s₀
  rw [← same, ← same₀] at sees
  have related := rel_joined? inStep looks joining
  rw [Waiting.run, Waiting.run]
  dsimp only
  generalize joined? looks (net.lookAll slots s).2 joining = answer at related ⊢
  generalize joined? looks (net.lookAll slots₀ s₀).2 joining = answer₀ at related ⊢
  cases related with
  | none =>
    refine ⟨?_, sees, .waiting (.mk inStep alike)⟩
    rw [same]
    exact k.guarantees_refl _
  | some joined =>
    have next := (alike _ _ joined).advance impartial step sees
    exact ⟨same ▸ next.guaranteed, next.sees, next.alike⟩

/-- Programs that are alike begin alike. -/
theorem Program.Alike.ofProgram (h : p.Alike k p₀) :
    (Waiting.ofProgram p).Alike k lead (.ofProgram p₀) :=
  .mk .nil fun _ _ _ => h

/-- The same for values of another kind. -/
def Kinship.withValues (k : Kinship α) (Agrees : β → β → Prop) : Kinship β where
  Sees := k.Sees
  Guarantees := k.Guarantees
  Agrees := Agrees
  guarantees_refl := k.guarantees_refl
  guarantees_trans := k.guarantees_trans

/-- Programs that are alike stay so with their values changed in the end. -/
theorem Program.Alike.map {f f₀ : α → β} {Agrees : β → β → Prop} (h : p.Alike k p₀)
    (agree : ∀ a a₀, k.Agrees a a₀ → Agrees (f a) (f₀ a₀)) :
    (p.map f).Alike (k.withValues Agrees) (p₀.map f₀) := by
  induction h with
  | done agreed => exact .done (agree _ _ agreed)
  | look alike ih => exact .look ih
  | change guaranteed sees alike ih => exact .change guaranteed sees ih
  | ask alike ih => exact .ask ih

end Programs

end CrossBook.Engine
