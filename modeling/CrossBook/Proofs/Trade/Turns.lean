import CrossBook.Proofs.Trade.Steps
import CrossBook.Proofs.Trade.Touches

/-!
# How long a walk takes

A match passes nothing, so a walk ends only because every match exhausts an entry: however amounts
are rounded, base that is matched in full leaves nothing, and the next turn passes what is
exhausted. An entry is passed once and pays for one match, so the turns are at most two for each
entry of both books, and a walk without any bound on its turns comes to the same result as the walk
that is allowed so many.

## Main definitions

* `Trade.Walk.Ends` — a walk ends after so many turns, with a plan or a failure
* `Trade.Walk.Sparing` — the matches of a walk against the entries

## Main results

* `Trade.Walk.exists_ends`, `Trade.Walk.Ends.run_eq` — walks end as they are run
* `Trade.Walk.Ends.turns_le` — the turns of a walk
* `Trade.Walk.Sparing.step` — the matches are fewer than the entries
* `Trade.Plan.size_terminates` — the turns, the steps and the claims of a sized plan
-/

namespace CrossBook.Trade

open Decimal

namespace Walk

variable {u : Units} {w next : Walk} {turns fuel : ℕ} {result : Except Failure Plan}

/-! ### Turns -/

/-- A walk with nothing to stop it ends after so many turns. A turn is begun while both books have
an entry left; it is the last where the books are apart or the step fails. -/
inductive Ends (u : Units) : Walk → ℕ → Except Failure Plan → Prop where
  | ranOut {w : Walk} (h : w.venue = [] ∨ w.chain = []) : Ends u w 0 (.ok w.plan)
  | apart {w : Walk} {plan : Plan} (venue : w.venue ≠ []) (chain : w.chain ≠ [])
      (step : w.step u = .ok (.finished plan)) : Ends u w 1 (.ok plan)
  | failed {w : Walk} {f : Failure} (step : w.step u = .error f) : Ends u w 1 (.error f)
  | more {w next : Walk} {turns : ℕ} {result : Except Failure Plan}
      (step : w.step u = .ok (.more next)) (behind : Ends u next turns result) :
      Ends u w (turns + 1) result

/-- Both books have an entry left where a step fails. -/
theorem ne_nil_of_failed {f : Failure} (step : w.step u = .error f) :
    w.venue ≠ [] ∧ w.chain ≠ [] := by
  refine not_or.mp fun out => ?_
  rw [step_of_ranOut out] at step
  cases step

theorem two_le_pending (venue : w.venue ≠ []) (chain : w.chain ≠ []) : 2 ≤ w.pending := by
  have level := List.length_pos_iff.mpr venue
  have order := List.length_pos_iff.mpr chain
  unfold pending
  omega

/-- A walk ends before the steps that are pending are made. -/
theorem Ends.turns_le (h : w.Ends u turns result) : turns ≤ w.pending - 1 := by
  induction h with
  | ranOut h => exact Nat.zero_le _
  | apart venue chain step => exact Nat.le_sub_one_of_lt (two_le_pending venue chain)
  | failed step =>
    obtain ⟨venue, chain⟩ := ne_nil_of_failed step
    exact Nat.le_sub_one_of_lt (two_le_pending venue chain)
  | more step behind ih =>
    have closer := pending_lt (step_cases step)
    have left := pending_pos (step_cases step)
    omega

/-- A walk that ends is run to its end by any larger number of steps. -/
theorem Ends.run_eq (h : w.Ends u turns result) (enough : turns < fuel) :
    w.run u fuel = result := by
  induction h generalizing fuel with
  | ranOut h => exact run_of_ranOut h fuel
  | apart venue chain step =>
    obtain ⟨fuel, rfl⟩ := Nat.exists_eq_add_one_of_ne_zero (Nat.ne_zero_of_lt enough)
    exact run_of_finished step fuel
  | failed step =>
    obtain ⟨fuel, rfl⟩ := Nat.exists_eq_add_one_of_ne_zero (Nat.ne_zero_of_lt enough)
    rw [run, step, error_bind]
  | more step behind ih =>
    obtain ⟨fuel, rfl⟩ := Nat.exists_eq_add_one_of_ne_zero (Nat.ne_zero_of_lt enough)
    rw [run_of_more step]
    exact ih (Nat.lt_of_succ_lt_succ enough)

/-- A walk with as many steps as are pending ends as it is run. -/
theorem exists_ends (enough : w.pending ≤ fuel) (positive : 0 < fuel) :
    ∃ turns, w.Ends u turns (w.run u fuel) := by
  induction fuel generalizing w with
  | zero => exact absurd positive (lt_irrefl 0)
  | succ fuel ih =>
    by_cases out : w.venue = [] ∨ w.chain = []
    · rw [run_of_ranOut out]
      exact ⟨0, .ranOut out⟩
    obtain ⟨venue, chain⟩ := not_or.mp out
    cases step : w.step u with
    | error f =>
      rw [run, step, error_bind]
      exact ⟨1, .failed step⟩
    | ok progress =>
      cases progress with
      | finished plan =>
        rw [run_of_finished step]
        exact ⟨1, .apart venue chain step⟩
      | more next =>
        -- fewer steps are pending, and some are left
        have closer := pending_lt (step_cases step)
        have left := pending_pos (step_cases step)
        obtain ⟨turns, behind⟩ := ih (w := next) (by omega) (by omega)
        rw [run_of_more step]
        exact ⟨turns + 1, .more step behind⟩

/-! ### Steps of the plan -/

/-- Every match has spent an entry, and before each of them two were unspent: the matches are fewer
than the entries. -/
structure Sparing (entries : ℕ) (w : Walk) : Prop where
  spent : w.plan.steps.length + w.unspent ≤ entries
  steps_le : w.plan.steps.length ≤ entries - 1

theorem sparing_start (d : Direction) (venue : List Venue.Level) (chain : List Chain.Order) :
    (start d venue chain).Sparing (venue.length + chain.length) where
  spent := (Nat.zero_add _).trans_le (unspent_le (start d venue chain))
  steps_le := Nat.zero_le _

/-- Every step keeps a walk sparing. -/
theorem Sparing.step {entries : ℕ} (h : w.Sparing entries) (step : Step u w (.more next)) :
    next.Sparing entries := by
  refine ⟨(steps_add_unspent_le step).trans h.spent, ?_⟩
  cases step with
  | passLevel f crossing exhausted => exact h.steps_le
  | passOrder f crossing exhausted => exact h.steps_le
  | matching m =>
    have two := m.meeting.two_le_unspent
    have spent := h.spent
    rw [length_steps_of_match m]
    omega

end Walk

namespace Plan

variable {u : Units} {d : Direction} {venue : List Venue.Level} {chain : List Chain.Order}
  {plan : Plan}

theorem size_steps_le (h : Plan.size u d venue chain = .ok plan) :
    plan.steps.length ≤ venue.length + chain.length - 1 := by
  obtain ⟨last, sparing, rfl⟩ := size_ends Walk.Sparing.step (Walk.sparing_start d venue chain) h
  exact sparing.steps_le

/-- Nothing is matched against an empty book. -/
theorem size_of_empty_book (h : venue = [] ∨ chain = []) :
    Plan.size u d venue chain = .ok (.empty d) :=
  Walk.run_of_ranOut (w := Walk.start d venue chain) h _

theorem size_claims_le (h : Plan.size u d venue chain = .ok plan) :
    plan.claims.length ≤ chain.length := by
  obtain ⟨last, ⟨passed, reaching⟩, rfl⟩ := size_ends
    (P := fun w => ∃ passed, w.Reaching u d venue chain passed)
    (fun ⟨_, holds⟩ step => holds.step step) ⟨0, Walk.reaching_start u d venue chain⟩ h
  rw [claims, List.length_map, ← reaching.touches.length_eq]
  exact length_heldPlaces_le chain _

/-- A walk without any bound on its turns ends, with the plan or the failure of sizing, after at
most two turns for each entry of both books. A plan that comes out has fewer steps than there are
entries, none if a book is empty, and at most one claim for each order. -/
theorem size_terminates (u : Units) (d : Direction) (venue : List Venue.Level)
    (chain : List Chain.Order) :
    (∃ turns, (Walk.start d venue chain).Ends u turns (Plan.size u d venue chain)) ∧
      (∀ turns result, (Walk.start d venue chain).Ends u turns result →
        turns ≤ 2 * (venue.length + chain.length) ∧ Plan.size u d venue chain = result) ∧
      ∀ plan, Plan.size u d venue chain = .ok plan →
        plan.steps.length ≤ venue.length + chain.length - 1 ∧
          (venue = [] ∨ chain = [] → plan.steps = []) ∧ plan.claims.length ≤ chain.length := by
  have pending := Walk.pending_start_le d venue chain
  refine ⟨Walk.exists_ends pending (Nat.succ_pos _), fun turns result ends => ?_, fun plan h => ?_⟩
  · have turns_le := ends.turns_le.trans (Nat.sub_le_sub_right pending 1)
    exact ⟨turns_le, ends.run_eq (Nat.lt_succ_of_le turns_le)⟩
  · refine ⟨size_steps_le h, fun empty => ?_, size_claims_le h⟩
    rw [size_of_empty_book empty] at h
    exact congrArg Plan.steps (Except.ok.inj h).symm

/-- The first order holds so little that the base matched with it is rounded to nothing. It is
exhausted all the same: the walk ends, after no more than two turns for each entry. -/
theorem size_terminates_of_speck :
    let venue : List Venue.Level := [⟨.ofWord 15 1, .ofWord 30 0⟩, ⟨.ofWord 16 1, .zero⟩]
    let chain : List Chain.Order :=
      [.fresh 2000000 6 "bid" "maker" (.ofWord 1 28), .fresh 2000000 7 "bid" "maker" .zero,
        .fresh 2000000 8 "bid" "maker" (.ofWord 70 0)]
    ∃ turns plan, (Walk.start .chainBid venue chain).Ends ⟨6, 6⟩ turns (.ok plan) ∧ turns ≤ 10 ∧
      plan.steps.length = 2 ∧ plan.steps.length ≤ 4 ∧ plan.claims.length ≤ 3 := by
  intro venue chain
  obtain ⟨plan, sized, two⟩ := exists_eq_ok (x := Plan.size ⟨6, 6⟩ .chainBid venue chain)
    (P := fun plan => plan.steps.length = 2) (by decide +kernel)
  obtain ⟨⟨turns, ends⟩, bounded, small⟩ := size_terminates ⟨6, 6⟩ .chainBid venue chain
  obtain ⟨turns_le, -⟩ := bounded turns _ ends
  obtain ⟨steps_le, -, claims_le⟩ := small plan sized
  rw [sized] at ends
  exact ⟨turns, plan, ends, turns_le, two, steps_le, claims_le⟩

end Plan

end CrossBook.Trade
