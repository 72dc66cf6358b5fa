import CrossBook.Proofs.Engine.Blocks
import CrossBook.Proofs.Engine.Ledgers

/-!
# How long pairs rest

A pair that trades at a height rests until some height behind it, and it does not trade before that.
So the height until which it rests never falls, in whatever order blocks come, and between two of
its trades lie at least as many heights as it rests. As long as it rests its cycles end at once,
without asking for anything; from the height until which it rests they look again.

All this is about pairs whose display name nobody shares: pairs of one name rest together.

## Main definitions

* `Engine.Cooldowns.LastsTo` — a pair rests at least until a height
* `Engine.tradeHeights` — the heights at which a pair has traded
* `Engine.Trader.Fares` — what becomes of a pair in a block, given how long it rests

## Main results

* `Engine.Session.Completes.fares` — what becomes of a pair in a block that returns
* `Engine.Session.Chronicle.history` — what a log tells about how long a pair rests
* `Engine.Session.Completes.rests` — what a pair does in the blocks after a trade
* `Engine.Session.rests_between_trades` — how long a pair rests, over whole histories
-/

namespace CrossBook.Engine

open Program

variable {σ : Type}

/-! ### Cooldowns -/

namespace Cooldowns

variable {c : Cooldowns} {pair : String} {height until_ n : Nat}

/-- A pair rests until a height, or longer. -/
def LastsTo (c : Cooldowns) (pair : String) (n : Nat) : Prop :=
  ∃ until_, c.get? pair = some until_ ∧ n ≤ until_

theorem blockedUntil_eq_some_iff : c.blockedUntil pair height = some until_ ↔
    c.get? pair = some until_ ∧ height < until_ := by
  rw [blockedUntil]
  cases c.get? pair with
  | none => simp
  | some v =>
    dsimp only
    split_ifs with early
    · constructor
      · rintro ⟨⟩
        exact ⟨rfl, early⟩
      · rintro ⟨⟨⟩, -⟩
        rfl
    · constructor
      · rintro ⟨⟩
      · rintro ⟨⟨⟩, late⟩
        exact absurd late early

theorem LastsTo.le_of_free (h : c.LastsTo pair n) (free : c.blockedUntil pair height = none) :
    n ≤ height := by
  obtain ⟨until_, rests, before⟩ := h
  by_contra late
  have blocked := blockedUntil_eq_some_iff.mpr ⟨rests, show height < until_ by omega⟩
  rw [free] at blocked
  cases blocked

end Cooldowns

namespace Trader

variable {t : Trader} {height n : Nat} {base c c' : Cooldowns} {shared : Prop} {l : Landing}
  {s : Stores} {o : Outcome}

theorem lastsTo_restsUntil (rests : c.get? t.name = some (t.restsUntil height))
    (before : n ≤ height) : c.LastsTo t.name n :=
  ⟨_, rests, before.trans (Nat.le_add_right _ _)⟩

/-- A pair rests no shorter than when its block began. -/
theorem Advances.lastsTo (h : t.Advances height base c) (lasts : base.LastsTo t.name n) :
    c.LastsTo t.name n := by
  rcases h with same | ⟨free, rests⟩
  · rwa [Cooldowns.LastsTo, same]
  · exact lastsTo_restsUntil rests (lasts.le_of_free free)

/-- A pair rests no shorter than before, while its block runs. -/
theorem Advances.mono (h : t.Advances height base c) (h' : t.Advances height base c')
    (sees : Sees True t height c c') (lasts : c.LastsTo t.name n) : c'.LastsTo t.name n := by
  rcases sees with same | ⟨-, rests⟩
  · rwa [Cooldowns.LastsTo, same]
  · rcases h with same | ⟨-, already⟩
    · refine h'.lastsTo ?_
      rwa [Cooldowns.LastsTo, ← same]
    · rwa [Cooldowns.LastsTo, rests, ← already]

/-- What becomes of a pair in a block, given how long it rested before and rests after it. If it
rests beyond the block, nobody is asked for anything; otherwise it is looked at. -/
structure Fares (t : Trader) (height : Nat) (before after : Cooldowns) (o : Outcome) : Prop where
  resting : ∀ until_, o = .coolingDown until_ ↔ before.blockedUntil t.name height = some until_
  runs : ∃ s trace s', s.cooldowns.get? t.name = before.get? t.name ∧
    (t.cycle height).Runs (t.beside False height) s trace (.ok o) s'
  silent : (∃ until_, o = .coolingDown until_) → ∀ surroundings s trace ending s',
    s.cooldowns.get? t.name = before.get? t.name →
    (t.cycle height).Runs surroundings s trace ending s' → trace = []
  looks : (∀ until_, o ≠ .coolingDown until_) → ∀ surroundings s trace ending s',
    s.cooldowns.get? t.name = before.get? t.name →
    (t.cycle height).Runs surroundings s trace ending s' → t.Looks trace
  traded : (∃ e, o = .executed e) → after.get? t.name = some (t.restsUntil height)
  kept : (∀ e, o ≠ .executed e) → after.get? t.name = before.get? t.name

/-- A pair that trades was not at rest. -/
theorem Fares.free_of_executed {before after : Cooldowns} {e : Execution}
    (h : t.Fares height before after (.executed e)) :
    before.blockedUntil t.name height = none := by
  refine Option.eq_none_iff_forall_not_mem.mpr fun until_ blocked => ?_
  cases (h.resting until_).mpr blocked

theorem Landed.fares (h : t.Landed shared height base l s) (alone : ¬ shared)
    (returned : l.ending = .ok o) : t.Fares height base s.cooldowns o := by
  obtain rfl := eq_false alone
  have course := h.runs
  rw [returned] at course
  obtain ⟨s₁, trace, s₂, since, run, -⟩ := course
  have runs : ∃ s trace s', s.cooldowns.get? t.name = base.get? t.name ∧
      (t.cycle height).Runs (t.beside False height) s trace (.ok o) s' :=
    ⟨s₁, trace, s₂, since.eq_of_alone alone, run⟩
  have traded : (∃ e, o = .executed e) → s.cooldowns.get? t.name = some (t.restsUntil height) := by
    rintro ⟨e, rfl⟩
    exact (h.settled returned).rests
  cases blocked : base.blockedUntil t.name height with
  | some blockedUntil =>
    obtain ⟨ended, kept⟩ := h.of_blocked alone blocked
    obtain rfl := Except.ok.inj (returned.symm.trans ended)
    refine ⟨fun until_ => ?_, runs, fun _ _ s trace ending s' same run => ?_,
      fun awake => absurd rfl (awake _), traded, fun _ => kept⟩
    · rw [blocked, Option.some.injEq, Outcome.coolingDown.injEq]
    · rw [← blockedUntil_congr same] at blocked
      exact (leads_cycle_of_blocked blocked (leads_finished_iff.mpr run)).1
  | none =>
    obtain ⟨awake, kept⟩ := h.of_free alone blocked
    have awake (until_ : Nat) : o ≠ .coolingDown until_ := fun same =>
      awake until_ (by rw [returned, same])
    refine ⟨fun until_ => ?_, runs, fun ⟨until_, same⟩ => absurd same (awake until_),
      fun _ _ s trace ending s' same run => ?_, traded, fun untraded => kept fun e same => ?_⟩
    · rw [blocked]
      exact ⟨fun same => absurd same (awake until_), fun same => nomatch same⟩
    · exact looks_of_free ((blockedUntil_congr same).trans blocked) run
    · exact untraded e (Except.ok.inj (returned.symm.trans same))

end Trader

/-! ### What a log tells -/

/-- The height of a block that ended in which a pair has traded. -/
def Occurrence.tradeHeight? (pair : String) : Occurrence → Option Nat
  | .ended (.ok (.processed height _ outcomes)) =>
    if outcomes.any fun o => o.pair = pair ∧ o.outcome matches .executed _ then some height
    else none
  | _ => none

/-- The heights at which a pair has traded, in the order of a log. -/
def tradeHeights (pair : String) (log : List Occurrence) : List Nat :=
  log.filterMap (Occurrence.tradeHeight? pair)

section Logs

variable {pair : String} {log more : List Occurrence} {outcomes : List PairOutcome}

theorem tradeHeights_append : tradeHeights pair (log ++ more) =
    tradeHeights pair log ++ tradeHeights pair more := List.filterMap_append

/-- Pairs trade only in blocks that end. -/
theorem tradeHeights_eq_nil (unended : ∀ r, .ended r ∉ more) : tradeHeights pair more = [] := by
  refine List.filterMap_eq_nil_iff.mpr fun o among => ?_
  cases o with
  | ended r => exact absurd among (unended r)
  | _ => rfl

theorem tradeHeight?_eq_some {r : Except Abort Report} {height : Nat}
    (h : (Occurrence.ended r).tradeHeight? pair = some height) : ∃ refreshed outcomes e,
      r = .ok (.processed height refreshed outcomes) ∧ ⟨pair, .executed e⟩ ∈ outcomes := by
  unfold Occurrence.tradeHeight? at h
  split at h
  · next height' refreshed outcomes same =>
      split_ifs at h with traded
      obtain rfl := Option.some.inj h
      obtain ⟨⟨pair', outcome⟩, among, isTrade⟩ := List.any_eq_true.mp traded
      obtain ⟨rfl, executed⟩ := of_decide_eq_true isTrade
      cases outcome with
      | executed e => exact ⟨_, _, _, Occurrence.ended.inj same, among⟩
      | _ => cases executed
  · cases h

theorem tradeHeights_ended (pair : String) (r : Except Abort Report) :
    tradeHeights pair [.ended r] = ((Occurrence.ended r).tradeHeight? pair).toList := by
  rw [tradeHeights, List.filterMap_cons]
  cases (Occurrence.ended r).tradeHeight? pair <;> rfl

/-- The only outcome that is told of a pair is its own. -/
theorem eq_of_filter_eq {o o' : Outcome} (only : outcomes.filter (·.pair = pair) = [⟨pair, o⟩])
    (among : ⟨pair, o'⟩ ∈ outcomes) : o' = o := by
  have own : (⟨pair, o'⟩ : PairOutcome) ∈ outcomes.filter (·.pair = pair) :=
    List.mem_filter.mpr ⟨among, decide_eq_true rfl⟩
  rw [only, List.mem_singleton] at own
  exact (PairOutcome.mk.inj own).2

theorem outcomesOf_filter {landings : List Landing} (h : outcomesOf landings = .ok outcomes)
    (pair : String) : outcomesOf (landings.filter (·.pair = pair)) =
      .ok (outcomes.filter (·.pair = pair)) := by
  induction landings generalizing outcomes with
  | nil =>
    obtain rfl := Except.ok.inj h
    rfl
  | cons l rest ih =>
    rw [outcomesOf] at h
    cases ending : l.ending with
    | error a => simp [ending] at h
    | ok o =>
      cases landed : outcomesOf rest with
      | error a => simp [ending, landed, Except.map] at h
      | ok others =>
        simp only [ending, landed] at h
        obtain rfl := Except.ok.inj h
        by_cases this : l.pair = pair
        · rw [List.filter_cons_of_pos (by simpa using this),
            List.filter_cons_of_pos (by simpa using this), outcomesOf, ending, ih landed]
          rfl
        · rw [List.filter_cons_of_neg (by simpa using this),
            List.filter_cons_of_neg (by simpa using this), ih landed]

end Logs

namespace Session

variable {s s' : Session σ} {log : List Occurrence} {e : BlockEvent} {base : Cooldowns}
  {height n : Nat} {refreshed : List Nat} {outcomes : List PairOutcome} {t : Trader}

/-- A session trades a pair whose display name nobody shares. -/
structure Single (s : Session σ) (t : Trader) : Prop where
  companions : Companions s.traders
  among : t ∈ s.traders
  unshared : ∀ t' ∈ s.traders, t'.name = t.name → t' = t

theorem Single.alone (h : s.Single t) : ¬ t.SharesName s.traders := by
  rintro ⟨t', among', other, same⟩
  exact other (by rw [h.unshared t' among' same])

theorem Single.of_eq (h : s.Single t) (same : s'.traders = s.traders) : s'.Single t := by
  refine ⟨?_, ?_, ?_⟩ <;> rw [same]
  exacts [h.companions, h.among, h.unshared]

theorem Single.history (h : s.Single t) (moves : List (Move σ)) : (s.history moves).1.Single t :=
  h.of_eq (s.traders_history moves)

/-! ### One block -/

theorem Single.filter_eq (h : s.Single t) : s.traders.filter (·.name = t.name) = [t] := by
  have nodup : s.traders.Nodup := h.companions.different.imp fun other same => other (by rw [same])
  refine List.perm_singleton.mp ((List.perm_ext_iff_of_nodup (nodup.filter _)
    (List.nodup_singleton t)).mpr fun t' => ?_)
  rw [List.mem_filter, List.mem_singleton, decide_eq_true_iff]
  constructor
  · rintro ⟨among', same⟩
    exact h.unshared t' among' same
  · rintro rfl
    exact ⟨h.among, rfl⟩

/-- A block that returns tells one outcome of a pair. -/
theorem Concludes.exists_outcome {height' : Nat} (single : s.Single t)
    (h : s.Concludes height base (.ok (.processed height' refreshed outcomes))) :
    height' = height ∧ ∃ o, outcomes.filter (·.pair = t.name) = [⟨t.name, o⟩] ∧
      t.Fares height base s.scene.stores.cooldowns o := by
  cases h with
  | @processed _ outcomes landed done collected all =>
    -- the pair has landed just once
    have own : (landed.filter fun m => m.1.name = t.name).map (·.1) = [t] := by
      refine List.perm_singleton.mp ?_
      rw [← single.filter_eq]
      have named := all.filter fun t' => t'.name = t.name
      rwa [List.filter_map] at named
    obtain ⟨m, only, rfl⟩ := List.map_eq_singleton_iff.mp own
    have has_landed := done m (List.mem_of_mem_filter (only ▸ List.mem_singleton_self m))
    have landings : (landed.map (·.2)).filter (·.pair = m.1.name) = [m.2] := by
      rw [List.filter_map, ← List.map_singleton, ← only]
      refine congrArg _ (List.filter_congr fun m' among' => ?_)
      rw [Function.comp_apply, (done m' among').pair_eq]
    have collected := outcomesOf_filter collected m.1.name
    rw [landings, outcomesOf] at collected
    cases ending : m.2.ending with
    | error a => simp [ending] at collected
    | ok o =>
      simp only [ending] at collected
      have told : [⟨m.2.pair, o⟩] = outcomes.filter (·.pair = m.1.name) := Except.ok.inj collected
      rw [has_landed.pair_eq] at told
      refine ⟨rfl, o, ?_, has_landed.fares single.alone ending⟩
      refine List.perm_singleton.mp ?_
      rw [told]
      exact (List.mergeSort_perm outcomes _).filter _

/-- A pair that has traded in a block was looked at there. -/
theorem Concludes.fares_of_traded {r : Except Abort Report} {height' : Nat} (single : s.Single t)
    (h : s.Concludes height base r)
    (traded : (Occurrence.ended r).tradeHeight? t.name = some height') :
    height' = height ∧ ∃ x, t.Fares height base s.scene.stores.cooldowns (.executed x) := by
  obtain ⟨refreshed, outcomes, x, rfl, among⟩ := tradeHeight?_eq_some traded
  obtain ⟨rfl, o, only, fares⟩ := h.exists_outcome single
  obtain rfl := eq_of_filter_eq only among
  exact ⟨rfl, x, fares⟩

/-- What becomes of a pair in a block that returns. -/
theorem Completes.fares {height' : Nat} (single : s.Single t) (starts : s.Starts base)
    (h : s.Completes e s' (.ok (.processed height' refreshed outcomes))) :
    s'.Idle ∧ height' = e.height ∧ ∃ o, outcomes.filter (·.pair = t.name) = [⟨t.name, o⟩] ∧
      t.Fares e.height s.scene.stores.cooldowns s'.scene.stores.cooldowns o := by
  obtain ⟨-, idle, traders, concludes⟩ := h.concludes single.companions starts
  exact ⟨idle, concludes.exists_outcome (single.of_eq traders)⟩

/-! ### How long a pair rests -/

/-- A pair rests no shorter after a move than before. -/
theorem Starts.lastsTo (starts : s.Starts base) (single : s.Single t) (m : Move σ)
    (lasts : s.scene.stores.cooldowns.LastsTo t.name n) :
    (s.happen m).1.scene.stores.cooldowns.LastsTo t.name n := by
  cases starts with
  | idle idle => rwa [(idle.happen m).1]
  | @inFlight height attends =>
    have later : (s.happen m).1.Single t := single.of_eq (s.traders_happen m)
    have proceeds := attends.happen single.companions m
    have now : t.Advances height base (s.happen m).1.scene.stores.cooldowns := by
      rcases proceeds.goes with ⟨-, attends⟩ | ⟨_, _, -, -, concludes⟩
      · exact attends.advances later.among later.alone
      · exact concludes.advances later.among later.alone
    have earlier := attends.advances single.among single.alone
    exact earlier.mono now (proceeds.rests t single.among) lasts

theorem Starts.lastsTo_history (starts : s.Starts base) (single : s.Single t)
    (moves : List (Move σ)) (lasts : s.scene.stores.cooldowns.LastsTo t.name n) :
    (s.history moves).1.scene.stores.cooldowns.LastsTo t.name n := by
  induction moves using List.reverseRecOn with
  | nil => exact lasts
  | append_singleton moves m ih =>
    obtain ⟨base', starts⟩ := starts.history single.companions moves
    rw [history_concat]
    exact starts.lastsTo (single.history moves) m ih

/-- A pair rests until a height, and the block in flight, if there is one, is below it. -/
inductive Sleeps (s : Session σ) (t : Trader) (n : Nat) : Prop
  | idle (idle : s.Idle) (rests : s.scene.stores.cooldowns.get? t.name = some n)
  | inFlight {height : Nat} {base : Cooldowns} (attends : s.Attends height base)
      (below : height < n) (rests : base.get? t.name = some n)

theorem rests_of_advances {c : Cooldowns} (h : t.Advances height base c) (below : height < n)
    (rests : base.get? t.name = some n) : c.get? t.name = some n := by
  rcases h with same | ⟨free, -⟩
  · exact same.trans rests
  · rw [Cooldowns.blockedUntil_eq_some_iff.mpr ⟨rests, below⟩] at free
    cases free

theorem Sleeps.rests (h : s.Sleeps t n) (single : s.Single t) :
    s.scene.stores.cooldowns.get? t.name = some n := by
  cases h with
  | idle idle rests => exact rests
  | inFlight attends below rests =>
    exact rests_of_advances (attends.advances single.among single.alone) below rests

theorem Sleeps.happen (h : s.Sleeps t n) (single : s.Single t) (m : Move σ)
    (below : ∀ e, .admitted e ∈ (s.happen m).2 → e.height < n) : (s.happen m).1.Sleeps t n := by
  cases h with
  | idle idle rests =>
    obtain ⟨kept, -, ⟨idle, -⟩ | ⟨e, -, seen, attends⟩⟩ := idle.happen m
    · exact .idle idle (by rw [kept, rests])
    · exact .inFlight attends (below e (seen ▸ List.mem_singleton_self _)) rests
  | inFlight attends early rests =>
    rcases (attends.happen single.companions m).goes with ⟨-, attends⟩ | ⟨_, _, -, idle, concludes⟩
    · exact .inFlight attends early rests
    · have later : (s.happen m).1.Single t := single.of_eq (s.traders_happen m)
      exact .idle idle (rests_of_advances (concludes.advances later.among later.alone) early rests)

/-- As long as all blocks that are admitted are below the height until which a pair rests, it rests
until that height. -/
theorem Sleeps.history (h : s.Sleeps t n) (single : s.Single t) {moves : List (Move σ)}
    (below : ∀ e, .admitted e ∈ (s.history moves).2 → e.height < n) :
    (s.history moves).1.Sleeps t n := by
  induction moves using List.reverseRecOn with
  | nil => exact h
  | append_singleton moves m ih =>
    rw [history_concat] at below ⊢
    exact (ih fun e among => below e (List.mem_append_left _ among)).happen (single.history moves) m
      fun e among => below e (List.mem_append_right _ among)

/-! ### Trades -/

/-- What a log tells about how long a pair rests. It has rested from each trade until some height
behind it, and has not traded before; and since its last trade it rests still. -/
structure Chronicle (s : Session σ) (t : Trader) (log : List Occurrence) : Prop where
  lasts : ∃ base, s.Starts base ∧
    ∀ earlier ∈ tradeHeights t.name log, base.LastsTo t.name (t.restsUntil earlier)
  apart : (tradeHeights t.name log).Pairwise fun earlier later => t.restsUntil earlier ≤ later

theorem Chronicle.happen (h : s.Chronicle t log) (single : s.Single t) (m : Move σ) :
    (s.happen m).1.Chronicle t (log ++ (s.happen m).2) := by
  obtain ⟨⟨base, starts, lasts⟩, apart⟩ := h
  rcases starts.happen single.companions m with
    ⟨unended, starts⟩ | ⟨loads, r, height, seen, idle, concludes⟩
  · have same : tradeHeights t.name (log ++ (s.happen m).2) = tradeHeights t.name log := by
      rw [tradeHeights_append, tradeHeights_eq_nil unended, List.append_nil]
    exact ⟨⟨base, starts, same ▸ lasts⟩, same ▸ apart⟩
  · have unended : ∀ r', .ended r' ∉ loads.map Occurrence.read := by simp
    have told : tradeHeights t.name (log ++ (s.happen m).2) =
        tradeHeights t.name log ++ ((Occurrence.ended r).tradeHeight? t.name).toList := by
      rw [seen, tradeHeights_append, tradeHeights_append, tradeHeights_eq_nil unended,
        List.nil_append, tradeHeights_ended]
    have later : (s.happen m).1.Single t := single.of_eq (s.traders_happen m)
    have advances := concludes.advances later.among later.alone
    -- what was told before is still true
    have before : ∀ earlier ∈ tradeHeights t.name log,
        (s.happen m).1.scene.stores.cooldowns.LastsTo t.name (t.restsUntil earlier) :=
      fun earlier among => advances.lastsTo (lasts earlier among)
    cases traded : (Occurrence.ended r).tradeHeight? t.name with
    | none =>
      rw [traded, Option.toList_none, List.append_nil] at told
      exact ⟨⟨_, .idle idle rfl, told ▸ before⟩, told ▸ apart⟩
    | some height' =>
      rw [traded, Option.toList_some] at told
      obtain ⟨rfl, x, fares⟩ := concludes.fares_of_traded later traded
      -- the pair was free to trade, so it had rested from all trades before
      have free := fares.free_of_executed
      refine ⟨⟨_, .idle idle rfl, ?_⟩, ?_⟩
      · rw [told]
        intro earlier among
        rcases List.mem_append.mp among with past | now
        · exact before earlier past
        · obtain rfl := List.mem_singleton.mp now
          exact ⟨_, fares.traded ⟨x, rfl⟩, le_rfl⟩
      · rw [told]
        refine List.pairwise_append.mpr ⟨apart, List.pairwise_singleton _ _, ?_⟩
        intro earlier past now among
        obtain rfl := List.mem_singleton.mp among
        exact (lasts earlier past).le_of_free free

theorem Chronicle.history (h : s.Chronicle t log) (single : s.Single t) (moves : List (Move σ)) :
    (s.history moves).1.Chronicle t (log ++ (s.history moves).2) := by
  induction moves using List.reverseRecOn with
  | nil => rwa [history_nil, List.append_nil]
  | append_singleton moves m ih =>
    rw [history_concat, ← List.append_assoc]
    exact ih.happen (single.history moves) m

/-- What a log tells about how long a pair rests holds also while a block runs. -/
theorem Chronicle.lastsTo (h : s.Chronicle t log) (single : s.Single t) {earlier : Nat}
    (traded : earlier ∈ tradeHeights t.name log) :
    s.scene.stores.cooldowns.LastsTo t.name (t.restsUntil earlier) := by
  obtain ⟨⟨base, starts, lasts⟩, -⟩ := h
  cases starts with
  | idle idle same => exact same ▸ lasts earlier traded
  | inFlight attends =>
    exact (attends.advances single.among single.alone).lastsTo (lasts earlier traded)

/-- After a block in which a pair has traded, it sleeps until the end of its rest. -/
theorem Completes.sleeps {height' : Nat} {x : Execution} (single : s.Single t)
    (starts : s.Starts base) (h : s.Completes e s' (.ok (.processed height' refreshed outcomes)))
    (traded : ⟨t.name, .executed x⟩ ∈ outcomes) :
    s'.Single t ∧ s'.Sleeps t (t.restsUntil height') := by
  obtain ⟨idle, rfl, o, only, fares⟩ := h.fares single starts
  obtain ⟨-, -, traders, -⟩ := h.concludes single.companions starts
  obtain rfl := eq_of_filter_eq only traded
  exact ⟨single.of_eq traders, .idle idle (fares.traded ⟨x, rfl⟩)⟩

/-- After a block in which a pair has traded it is at rest, as long as blocks are below the end of
its rest. In the first that is not it is looked at again. -/
theorem Completes.rests {height' height'' : Nat} {x : Execution} {refreshed' : List Nat}
    {outcomes' : List PairOutcome} {e' : BlockEvent} {s₃ : Session σ} (single : s.Single t)
    (starts : s.Starts base) (h : s.Completes e s' (.ok (.processed height' refreshed outcomes)))
    (traded : ⟨t.name, .executed x⟩ ∈ outcomes) {more : List (Move σ)}
    (below : ∀ e', .admitted e' ∈ (s'.history more).2 → e'.height < t.restsUntil height')
    (h' : (s'.history more).1.Completes e' s₃ (.ok (.processed height'' refreshed' outcomes'))) :
    ∃ o, outcomes'.filter (·.pair = t.name) = [⟨t.name, o⟩] ∧
      (height'' < t.restsUntil height' → o = .coolingDown (t.restsUntil height')) ∧
      (t.restsUntil height' ≤ height'' → ∀ until_, o ≠ .coolingDown until_) := by
  obtain ⟨single', sleeps⟩ := h.sleeps single starts traded
  obtain ⟨idle, -⟩ := h.fares single starts
  obtain ⟨base', starts⟩ := (Starts.idle idle rfl).history single'.companions more
  have single := single'.history more
  have rests := (sleeps.history single' below).rests single
  obtain ⟨-, rfl, o, only, fares⟩ := h'.fares single starts
  refine ⟨o, only, fun early => ?_, fun late until_ resting => ?_⟩
  · exact (fares.resting _).mpr (Cooldowns.blockedUntil_eq_some_iff.mpr ⟨rests, early⟩)
  · obtain ⟨same, early⟩ := Cooldowns.blockedUntil_eq_some_iff.mp ((fares.resting _).mp resting)
    obtain rfl := Option.some.inj (rests.symm.trans same)
    exact absurd late (Nat.not_le_of_lt early)

/-- Over any history of a session whose pairs were listed, in whatever order blocks come, a pair
whose display name nobody shares rests as follows. The height until which it rests never falls. A
block that returns tells one outcome of the pair: that it rests, just when it rests beyond that
block, and then nobody is asked for anything; otherwise it is looked at. A trade puts the pair to
rest, and nothing else changes how long it rests. It rests from each of its trades until the same
number of heights behind it, and does not trade before. As long as the blocks that are admitted
after a trade are below that height, the pair rests in them; in the first that is not it is looked
at again. -/
theorem rests_between_trades {settings : Settings} {s₀ s₁ : Session σ} {moves : List (Move σ)}
    (listed : s₁.list settings = (s₀, .ok ())) (happened : s₀.history moves = (s, log))
    (among : t ∈ s₀.traders) (unshared : ∀ t' ∈ s₀.traders, t'.name = t.name → t' = t) :
    (∀ more until_, s.scene.stores.cooldowns.get? t.name = some until_ → ∃ later,
      (s.history more).1.scene.stores.cooldowns.get? t.name = some later ∧ until_ ≤ later) ∧
    (∀ e s' height refreshed outcomes,
      s.Completes e s' (.ok (.processed height refreshed outcomes)) →
      height = e.height ∧ ∃ o, outcomes.filter (·.pair = t.name) = [⟨t.name, o⟩] ∧
        t.Fares e.height s.scene.stores.cooldowns s'.scene.stores.cooldowns o) ∧
    (∀ height ∈ tradeHeights t.name log,
      s.scene.stores.cooldowns.LastsTo t.name (t.restsUntil height)) ∧
    (tradeHeights t.name log).Pairwise (fun earlier later => t.restsUntil earlier ≤ later) ∧
    ∀ e s₂ height refreshed outcomes x,
      s.Completes e s₂ (.ok (.processed height refreshed outcomes)) →
      ⟨t.name, .executed x⟩ ∈ outcomes → ∀ more,
      (∀ e', .admitted e' ∈ (s₂.history more).2 → e'.height < t.restsUntil height) →
      ∀ e' s₃ height' refreshed' outcomes',
        (s₂.history more).1.Completes e' s₃ (.ok (.processed height' refreshed' outcomes')) →
        ∃ o, outcomes'.filter (·.pair = t.name) = [⟨t.name, o⟩] ∧
          (height' < t.restsUntil height → o = .coolingDown (t.restsUntil height)) ∧
          (t.restsUntil height ≤ height' → ∀ until_, o ≠ .coolingDown until_) := by
  obtain ⟨companions, first⟩ := companions_list listed
  have single₀ : s₀.Single t := ⟨companions, among, unshared⟩
  have chronicle : s.Chronicle t log := by
    have start : s₀.Chronicle t [] := ⟨⟨_, first, by simp [tradeHeights]⟩, List.Pairwise.nil⟩
    have chronicle := start.history single₀ moves
    rwa [happened, List.nil_append] at chronicle
  have single : s.Single t := by
    have single := single₀.history moves
    rwa [happened] at single
  obtain ⟨base, starts, -⟩ := chronicle.lasts
  refine ⟨fun more until_ rests => starts.lastsTo_history single more ⟨until_, rests, le_rfl⟩,
    fun e s' height refreshed outcomes completes => (completes.fares single starts).2,
    fun height traded => chronicle.lastsTo single traded, chronicle.apart, ?_⟩
  intro e s₂ height refreshed outcomes x completes traded more below e' s₃ height' refreshed'
    outcomes' completes'
  exact completes.rests single starts traded below completes'

/-- Three blocks: the pair trades in the first and in the last, and rests in between. -/
def restingMoves : List (Move (Bool × List String)) :=
  wholeBlock 0 4 ⟨100, [1]⟩ ++ wholeBlock 1 4 ⟨104, []⟩ ++ wholeBlock 2 4 ⟨105, []⟩

/-- From the first trade the pair rests until the second one at the latest. -/
theorem rests_between_trades_of_restingMoves : ∃ t s log,
    (unlisted steepNetwork (false, []) [⟨.ofWord 15 1, .ofWord 100 0⟩]).list onePair =
      (steepSession false, .ok ()) ∧
    (steepSession false).history restingMoves = (s, log) ∧ t ∈ (steepSession false).traders ∧
    (∀ t' ∈ (steepSession false).traders, t'.name = t.name → t' = t) ∧
    tradeHeights t.name log = [100, 105] ∧ t.restsUntil 100 ≤ 105 := by
  have listed : (unlisted steepNetwork (false, []) [⟨.ofWord 15 1, .ofWord 100 0⟩]).list onePair =
    (steepSession false, .ok ()) := rfl
  have history : (steepSession false).history restingMoves = (_, _) := rfl
  have names : (steepSession false).traders.map (·.name) = ["OSMO/USDC"] := by decide +kernel
  obtain ⟨t, only, named⟩ := List.map_eq_singleton_iff.mp names
  have among : t ∈ (steepSession false).traders := only ▸ List.mem_singleton_self t
  have unshared : ∀ t' ∈ (steepSession false).traders, t'.name = t.name → t' = t := by
    rw [only]
    exact fun t' among _ => List.mem_singleton.mp among
  have heights : tradeHeights t.name ((steepSession false).history restingMoves).2 =
      [100, 105] := by
    rw [named]
    decide +kernel
  obtain ⟨-, -, -, apart, -⟩ := rests_between_trades listed history among unshared
  refine ⟨t, _, _, listed, history, among, unshared, heights, ?_⟩
  change (tradeHeights t.name ((steepSession false).history restingMoves).2).Pairwise _ at apart
  rw [heights] at apart
  exact List.rel_of_pairwise_cons apart (List.mem_singleton_self 105)

end Session

end CrossBook.Engine
