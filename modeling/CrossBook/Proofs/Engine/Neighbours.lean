import CrossBook.Proofs.Engine.Jobs
import CrossBook.Proofs.Engine.Stages

/-!
# Cycles beside each other

The cycles of a block run beside each other. What a pair sees of the others is little: its ledger is
left alone, and how long it rests is changed only by a pair of the same name, which is put to rest
until the same height. So at every moment each pair has its own course behind it, from the
cooldowns with which the block began.

## Main definitions

* `Engine.Trader.SharesName` — another pair has the same display name
* `Engine.Trader.Sees` — how the cooldowns of a pair may change beside it
* `Engine.Trader.Acts` — what a cycle changes
* `Engine.Trader.Underway`, `Engine.Trader.Landed` — cycles with their courses
* `Engine.followedPairs` — the duties of pairs whose courses are followed
* `Engine.Companions` — pairs that run beside each other

## Main results

* `Engine.followedPairs_apart` — companions do not disturb each other
* `Engine.Trader.Landed.advances`, `Engine.Trader.Underway.rested` — how long a pair rests, given
  how long it rested when the block began
-/

namespace CrossBook.Engine

open Relation Program

variable {σ α ι : Type} {net : Network σ} {height : Nat}

/-- What others do lasts along all that they do. -/
theorem Duties.ensures_of_changes {d : Duties net ι α} {jobs : List ι} {j : ι} {a : α}
    {s s' : Stores} (spares : ∀ i ∈ jobs, d.Spares i j)
    (changes : ReflTransGen (d.Changes jobs) s s') (h : d.Ensures j a s) : d.Ensures j a s' := by
  induction changes with
  | refl => exact h
  | tail _ last ih =>
    obtain ⟨i, job, guaranteed⟩ := last
    exact (spares i job _ _ guaranteed).2 a ih

namespace Trader

variable {t t' : Trader} {shared : Prop} {s s₁ s₂ s' : Stores} {base c c' c'' : Cooldowns}
  {w : Waiting Landing} {l : Landing} {trace : List Exchange} {surroundings : Surroundings}

/-! ### What a pair sees of the others -/

/-- Another trader has the same display name. -/
def SharesName (traders : List Trader) (t : Trader) : Prop :=
  ∃ t' ∈ traders, t'.ledger ≠ t.ledger ∧ t'.name = t.name

/-- How long a pair rests is the same, unless a pair of its name was put to rest. -/
def Sees (shared : Prop) (t : Trader) (height : Nat) (c c' : Cooldowns) : Prop :=
  c'.get? t.name = c.get? t.name ∨ shared ∧ c'.get? t.name = some (t.restsUntil height)

theorem Sees.refl (shared : Prop) (t : Trader) (height : Nat) (c : Cooldowns) :
    Sees shared t height c c := .inl rfl

theorem Sees.trans (h : Sees shared t height c c') (h' : Sees shared t height c' c'') :
    Sees shared t height c c'' := by
  rcases h' with same | rests
  · rcases h with same' | ⟨others, rests⟩
    · exact .inl (same.trans same')
    · exact .inr ⟨others, same.trans rests⟩
  · exact .inr rests

theorem Sees.eq_of_alone (h : Sees shared t height c c') (alone : ¬ shared) :
    c'.get? t.name = c.get? t.name := h.resolve_right fun rests => alone rests.1

/-- What may happen beside the cycle of a pair in a block. -/
def beside (shared : Prop) (t : Trader) (height : Nat) : Surroundings where
  Meanwhile s s' := s'.ledger t.ledger = s.ledger t.ledger ∧
    Sees shared t height s.cooldowns s'.cooldowns
  Prompt _ := False

theorem beside_lenient (shared : Prop) (t : Trader) (height : Nat) :
    (t.beside shared height).Lenient where
  refl _ := ⟨rfl, .refl ..⟩
  trans _ _ _ first second := ⟨second.1.trans first.1, first.2.trans second.2⟩
  slow _ := id

theorem undisturbed_beside (shared : Prop) (t : Trader) (height : Nat) :
    t.Undisturbed (t.beside shared height) (Sees shared t height) where
  refl := .refl shared t height
  trans _ _ _ := .trans
  cooldowns _ _ := And.right
  ledger _ _ := And.left

/-! ### What a cycle changes -/

/-- Only the ledger of the pair is changed, and how long it rests: until the height until which a
trade puts it to rest. -/
structure Acts (t : Trader) (height : Nat) (s s' : Stores) : Prop extends t.Confined s s' where
  rests : Sees True t height s.cooldowns s'.cooldowns

theorem covers_acts (t : Trader) (height : Nat) : t.Covers height (t.Acts height) where
  ledger f s := ⟨t.confined_modifyLedger f s, .refl ..⟩
  rest s := ⟨t.confined_rest _ s, .inr ⟨trivial, Table.get?_insert_self _ _ _⟩⟩

/-- A cycle that acts is told nothing else. -/
def actsContract (t : Trader) (height : Nat) : Contract Landing where
  Relies _ _ := True
  Guarantees := t.Acts height
  Ensures _ _ := True
  relies_refl _ := trivial
  relies_trans _ _ := trivial
  guarantees_refl s := ⟨.refl t s, .refl ..⟩
  guarantees_trans h h' := ⟨h.toConfined.trans h'.toConfined, h.rests.trans h'.rests⟩
  lasts ensured _ := ensured

theorem acts_takeOff (t : Trader) (height : Nat) (s : Stores) :
    (t.takeOff height).Keeps (t.actsContract height) s :=
  keeps_map.mpr (keeps_of_runs (changes_cycle (t.covers_acts height)) fun _ _ _ _ => trivial)

/-- A pair sees little of what another one does: nothing at all, or that a pair of its name was put
to rest until the same height. -/
theorem Acts.beside (h : t.Acts height s s') (other : t'.ledger ≠ t.ledger)
    (namesake : t.name = t'.name → shared ∧ t.restsUntil height = t'.restsUntil height) :
    (t'.beside shared height).Meanwhile s s' := by
  refine ⟨h.ledger_eq _ other, ?_⟩
  by_cases same : t.name = t'.name
  · obtain ⟨others, until_eq⟩ := namesake same
    rcases h.rests with kept | ⟨-, rests⟩
    · exact .inl (same ▸ kept)
    · exact .inr ⟨others, by rw [← same, rests, until_eq]⟩
  · exact .inl (h.cooldown_eq _ (Ne.symm same))

/-! ### Courses -/

/-- A cycle that waits has not begun, or it has its course behind it. -/
inductive Underway (shared : Prop) (t : Trader) (height : Nat) (base : Cooldowns) :
    Waiting Landing → Stores → Prop
  | inLine {s : Stores} (since : Sees shared t height base s.cooldowns) :
      Underway shared t height base (.ofProgram (t.takeOff height)) s
  | begun {w : Waiting Landing} {s s₁ : Stores} {trace : List Exchange}
      (since : Sees shared t height base s₁.cooldowns)
      (leads : (t.takeOff height).Leads (t.beside shared height) s₁ trace (.waiting w) s) :
      Underway shared t height base w s

/-- A cycle that has landed has its run behind it. -/
structure Landed (shared : Prop) (t : Trader) (height : Nat) (base : Cooldowns) (l : Landing)
    (s : Stores) : Prop where
  pair_eq : l.pair = t.name
  runs : ∃ s₁ trace s₂, Sees shared t height base s₁.cooldowns ∧
    (t.cycle height).Runs (t.beside shared height) s₁ trace l.ending s₂ ∧
    (t.beside shared height).Meanwhile s₂ s

/-- A cycle that has landed has run. -/
theorem runs_of_takeOff
    (leads : (t.takeOff height).Leads surroundings s₁ trace (.finished l) s) :
    l.pair = t.name ∧ (t.cycle height).Runs surroundings s₁ trace l.ending s := by
  obtain ⟨task, course, same⟩ := leads.of_map
  cases task with
  | waiting w => cases same
  | finished ending =>
    obtain rfl := Task.finished.inj same
    exact ⟨rfl, leads_finished_iff.mp course⟩

/-- A cycle that waits makes its own calls. -/
theorem leads_of_takeOff (leads : (t.takeOff height).Leads surroundings s₁ trace (.waiting w) s) :
    ∃ w' : Waiting Ending, w'.calls = w.calls ∧
      (t.cycle height).Leads surroundings s₁ trace (.waiting w') s := by
  obtain ⟨task, course, same⟩ := leads.of_map
  cases task with
  | finished ending => cases same
  | waiting w' =>
    obtain rfl := Task.waiting.inj same
    exact ⟨w', rfl, course⟩

theorem landed_of_leads (since : Sees shared t height base s₁.cooldowns)
    (leads : (t.takeOff height).Leads (t.beside shared height) s₁ trace (.finished l) s) :
    t.Landed shared height base l s := by
  obtain ⟨name, run⟩ := runs_of_takeOff leads
  exact ⟨name, s₁, trace, s, since, run, (t.beside_lenient ..).1 s⟩

theorem Underway.lasts (h : t.Underway shared height base w s)
    (meanwhile : (t.beside shared height).Meanwhile s s') :
    t.Underway shared height base w s' := by
  cases h with
  | inLine since => exact .inLine (since.trans meanwhile.2)
  | begun since leads => exact .begun since (leads.wait (t.beside_lenient ..) meanwhile _ _)

theorem Landed.lasts (h : t.Landed shared height base l s)
    (meanwhile : (t.beside shared height).Meanwhile s s') :
    t.Landed shared height base l s' := by
  obtain ⟨name, s₁, trace, s₂, since, run, after⟩ := h
  exact ⟨name, s₁, trace, s₂, since, run, (t.beside_lenient ..).2 _ _ _ after meanwhile⟩

/-- A cycle that has its turn goes on with its course, or lands. -/
theorem Underway.run (net : Network σ) {scene : Scene σ}
    (h : t.Underway shared height base w scene.stores) :
    (w.run net scene).2.Meets (t.Underway shared height base) (t.Landed shared height base)
      (w.run net scene).1.stores := by
  obtain ⟨s₁, trace, since, leads⟩ : ∃ s₁ trace, Sees shared t height base s₁.cooldowns ∧
      (t.takeOff height).Leads (t.beside shared height) s₁ trace (w.run net scene).2
        (w.run net scene).1.stores := by
    cases h with
    | inLine since =>
      obtain ⟨trace, leads⟩ := leads_begin (t.beside_lenient shared height) net _ scene
      exact ⟨_, trace, since, leads⟩
    | begun since leads =>
      obtain ⟨trace, leads⟩ := leads.run (t.beside_lenient shared height) net
      exact ⟨_, trace, since, leads⟩
  cases task : (w.run net scene).2 with
  | waiting w' => exact .begun since (task ▸ leads)
  | finished l => exact landed_of_leads since (task ▸ leads)

/-! ### How long a pair rests -/

/-- How long a pair rests since a block began: as before, or, if it was not at rest, until the
height until which a trade puts it to rest. -/
def Advances (t : Trader) (height : Nat) (base c : Cooldowns) : Prop :=
  c.get? t.name = base.get? t.name ∨
    base.blockedUntil t.name height = none ∧ c.get? t.name = some (t.restsUntil height)

theorem blockedUntil_congr (same : c'.get? t.name = c.get? t.name) :
    c'.blockedUntil t.name height = c.blockedUntil t.name height := by
  rw [Cooldowns.blockedUntil, same, Cooldowns.blockedUntil]

/-- A pair whose name nobody shares rests as long as before while its cycle waits. -/
theorem Underway.rested (h : t.Underway shared height base w s) (alone : ¬ shared) :
    s.cooldowns.get? t.name = base.get? t.name := by
  cases h with
  | inLine since => exact since.eq_of_alone alone
  | @begun _ _ s₁ trace since leads =>
    have before := since.eq_of_alone alone
    obtain ⟨w', -, course⟩ := leads_of_takeOff leads
    cases blocked : s₁.cooldowns.blockedUntil t.name height with
    | some until_ =>
      obtain ⟨-, ended, -⟩ := leads_cycle_of_blocked blocked course
      cases ended
    | none =>
      have passes := leads_cycle_of_free (t.undisturbed_beside shared height) blocked course
      have kept := passes.kept fun ⟨o, ended⟩ => by cases ended
      exact (kept.eq_of_alone alone).trans before

/-- A pair that was at rest lands at once, and rests as long as before. -/
theorem Landed.of_blocked (h : t.Landed shared height base l s) (alone : ¬ shared) {until_ : Nat}
    (blocked : base.blockedUntil t.name height = some until_) :
    l.ending = .ok (.coolingDown until_) ∧ s.cooldowns.get? t.name = base.get? t.name := by
  obtain ⟨-, s₁, trace, s₂, since, run, after⟩ := h
  have before := since.eq_of_alone alone
  rw [← blockedUntil_congr before] at blocked
  obtain ⟨-, ended, kept⟩ := leads_cycle_of_blocked blocked (leads_finished_iff.mpr run)
  refine ⟨Task.finished.inj ended, (after.2.eq_of_alone alone).trans ?_⟩
  rw [kept, before]

/-- A pair that was not at rest lands in some other way, and rests as long as before unless it has
traded. -/
theorem Landed.of_free (h : t.Landed shared height base l s) (alone : ¬ shared)
    (free : base.blockedUntil t.name height = none) :
    (∀ until_, l.ending ≠ .ok (.coolingDown until_)) ∧
      ((∀ e, l.ending ≠ .ok (.executed e)) → s.cooldowns.get? t.name = base.get? t.name) := by
  obtain ⟨-, s₁, trace, s₂, since, run, after⟩ := h
  have before := since.eq_of_alone alone
  have undisturbed := t.undisturbed_beside shared height
  have passes := leads_cycle_of_free undisturbed ((blockedUntil_congr before).trans free)
    (leads_finished_iff.mpr run)
  rw [after.2.eq_of_alone alone, ← before]
  cases ending : l.ending with
  | error a =>
    rw [ending] at passes
    refine ⟨fun _ same => (nomatch same), fun _ => ?_⟩
    exact (passes.kept fun ⟨o, ended⟩ => by cases ended).eq_of_alone alone
  | ok o =>
    rw [ending] at passes run
    -- A course with an outcome has come to the last of the stages.
    obtain _ | _ | _ | _ | _ | awake := passes.stage
    refine ⟨fun until_ same => awake until_ (Except.ok.inj same), fun untraded => ?_⟩
    rcases runs_cycle undisturbed run with quiet | ⟨_, _, _, _, _, _, _, -, -, -, trading⟩
    · exact quiet.kept.eq_of_alone alone
    · obtain ⟨legs, flush, rfl⟩ := trading.executed
      exact absurd rfl (untraded _)

/-- A pair that has traded has sent its claims, its ledger is empty, and it rests. -/
structure SettledAt (t : Trader) (height : Nat) (s : Stores) : Prop where
  ledger_eq : s.ledger t.ledger = .empty
  rests : s.cooldowns.get? t.name = some (t.restsUntil height)

theorem Landed.settled (h : t.Landed shared height base l s) {e : Execution}
    (traded : l.ending = .ok (.executed e)) : t.SettledAt height s := by
  obtain ⟨-, s₁, trace, s₂, since, run, after⟩ := h
  rw [traded] at run
  rcases runs_cycle (t.undisturbed_beside shared height) run with
    quiet | ⟨_, _, _, _, _, _, _, -, -, -, trading⟩
  · exact absurd rfl (quiet.untraded e)
  · obtain ⟨c, -, rests⟩ := trading.rests
    have resting : s₂.cooldowns.get? t.name = some (t.restsUntil height) := by
      rw [rests]
      exact Table.get?_insert_self _ _ _
    refine ⟨after.1.trans trading.ledger_eq, ?_⟩
    -- If a pair of its name was put to rest after it, then until the same height.
    rcases after.2 with kept | ⟨-, rests⟩
    · exact kept.trans resting
    · exact rests

theorem Landed.advances (h : t.Landed shared height base l s) (alone : ¬ shared) :
    t.Advances height base s.cooldowns := by
  cases blocked : base.blockedUntil t.name height with
  | some until_ => exact .inl (h.of_blocked alone blocked).2
  | none =>
    by_cases traded : ∃ e, l.ending = .ok (.executed e)
    · obtain ⟨e, traded⟩ := traded
      exact .inr ⟨blocked, (h.settled traded).rests⟩
    · exact .inl ((h.of_free alone blocked).2 fun e same => traded ⟨e, same⟩)

end Trader

/-! ### The pairs of a block -/

/-- Pairs that run beside each other: each has a ledger of its own, and all have the same
settings. -/
structure Companions (traders : List Trader) : Prop where
  different : traders.Pairwise fun t t' => t.ledger ≠ t'.ledger
  alike : ∀ t ∈ traders, ∀ t' ∈ traders, t.settings = t'.settings

/-- Cycles run at a height, each with its course since the block began. -/
def followedPairs (net : Network σ) (traders : List Trader) (height : Nat) (base : Cooldowns) :
    Duties net Trader Landing where
  Holds t w s := w.Keeps (t.actsContract height) s ∧
    t.Underway (t.SharesName traders) height base w s
  Guarantees t := t.Acts height
  Ensures t := t.Landed (t.SharesName traders) height base
  turn := by
    rintro t w s ⟨keeps, underway⟩
    obtain ⟨acts, meets⟩ : t.Acts height s.stores (w.run net s).1.stores ∧
      (w.run net s).2.Keeps (t.actsContract height) (w.run net s).1.stores := keeps.run
    refine ⟨acts, ?_⟩
    have course := underway.run net
    cases task : (w.run net s).2 with
    | finished l =>
      rw [task] at course
      exact course
    | waiting w' =>
      rw [task] at meets course
      exact ⟨meets, course⟩

section Followed

variable {traders jobs : List Trader} {base : Cooldowns} {t t' : Trader} {s s' : Stores}

/-- What one companion does is little to another one. -/
theorem Companions.beside (h : Companions traders) (ht : t ∈ traders) (ht' : t' ∈ traders)
    (other : t'.ledger ≠ t.ledger) (acts : t.Acts height s s') :
    (t'.beside (t'.SharesName traders) height).Meanwhile s s' := by
  refine acts.beside other fun same => ⟨⟨t, ht, Ne.symm other, same⟩, ?_⟩
  rw [Trader.restsUntil, Trader.restsUntil, h.alike t ht t' ht']

theorem Companions.spares (h : Companions traders) (ht : t ∈ traders) (ht' : t' ∈ traders)
    (other : t'.ledger ≠ t.ledger) : (followedPairs net traders height base).Spares t t' := by
  intro s s' acts
  have meanwhile := h.beside ht ht' other acts
  exact ⟨fun w ⟨keeps, underway⟩ => ⟨keeps.lasts trivial, underway.lasts meanwhile⟩,
    fun l landed => landed.lasts meanwhile⟩

/-- Companions do not disturb each other. -/
theorem followedPairs_apart (h : Companions traders) (among : ∀ t ∈ jobs, t ∈ traders)
    (different : jobs.Pairwise fun t t' => t.ledger ≠ t'.ledger) :
    jobs.Pairwise (followedPairs net traders height base).Apart := by
  refine different.imp_of_mem fun ht ht' other => ?_
  exact ⟨h.spares (among _ ht) (among _ ht') (Ne.symm other),
    h.spares (among _ ht') (among _ ht) other⟩

/-- Some of the companions, and the others: their ledgers are different ones. -/
theorem Companions.split {others : List Trader} (h : Companions traders)
    (all : (jobs ++ others).Perm traders) : (∀ t ∈ jobs, t ∈ traders) ∧
      jobs.Pairwise (fun t t' => t.ledger ≠ t'.ledger) ∧
      ∀ t ∈ jobs, ∀ t' ∈ others, t.ledger ≠ t'.ledger := by
  have different : (jobs ++ others).Pairwise fun t t' => t.ledger ≠ t'.ledger :=
    (all.pairwise_iff Ne.symm).mpr h.different
  obtain ⟨different, -, apart⟩ := List.pairwise_append.mp different
  exact ⟨fun t job => all.subset (List.mem_append_left _ job), different, apart⟩

/-- What some companions change does not undo a landing of another one. -/
theorem Companions.landed (h : Companions traders) {l : Landing} (among : ∀ t ∈ jobs, t ∈ traders)
    (changes : ReflTransGen ((followedPairs net traders height base).Changes jobs) s s')
    (ht : t ∈ traders) (other : ∀ t' ∈ jobs, t'.ledger ≠ t.ledger)
    (landed : t.Landed (t.SharesName traders) height base l s) :
    t.Landed (t.SharesName traders) height base l s' :=
  Duties.ensures_of_changes (d := followedPairs net traders height base)
    (fun t' job => h.spares (among t' job) ht (Ne.symm (other t' job))) changes landed

/-- As far as any pair can tell, pairs were put to rest until one height at most. -/
theorem Companions.sees (h : Companions traders) (among : ∀ t ∈ jobs, t ∈ traders)
    (changes : ReflTransGen ((followedPairs net traders height base).Changes jobs) s s')
    (ht : t ∈ traders) : Trader.Sees True t height s.cooldowns s'.cooldowns := by
  induction changes with
  | refl => exact .refl ..
  | @tail s₁ s₂ _ last ih =>
    obtain ⟨t', job, acts⟩ := last
    have acts : t'.Acts height s₁ s₂ := acts
    refine ih.trans ?_
    by_cases same : t'.name = t.name
    · have until_eq : t'.restsUntil height = t.restsUntil height := by
        rw [Trader.restsUntil, Trader.restsUntil, h.alike t' (among t' job) t ht]
      have rests := acts.rests
      rwa [Trader.Sees, same, until_eq] at rests
    · exact .inl (acts.cooldown_eq _ (Ne.symm same))

end Followed

end CrossBook.Engine
