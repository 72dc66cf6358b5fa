import CrossBook.Failure
import CrossBook.Proofs.Decimal.Value

/-!
# What a result tells about its computation

A computation that has a result was never stopped: each of its parts had a result as well, and the
values it asked for were there. What it fails with is what one of its parts fails with.

## Main definitions

* `FailsOnly` — a computation whose failures are all of one kind

## Main results

* `bind_eq_ok` — both halves of a computation have results
* `failsOnly_bind` — both halves of a computation fail in one way only
* `roundsTo_of_plus`, `roundsTo_of_minus`, `roundsTo_of_times` — arithmetic that did not abort
  rounded its exact results
-/

namespace CrossBook

variable {ε α β : Type}

theorem bind_eq_ok {x : Except ε α} {f : α → Except ε β} {b : β} :
    (x >>= f) = .ok b ↔ ∃ a, x = .ok a ∧ f a = .ok b := by
  cases x <;> simp [bind, Except.bind]

theorem ok_bind (a : α) (f : α → Except ε β) : (Except.ok a >>= f) = f a := rfl

theorem error_bind (e : ε) (f : α → Except ε β) : (Except.error e >>= f) = .error e := rfl

theorem orError_some (e : ε) (a : α) : orError e (some a) = .ok a := rfl

theorem orError_none (e : ε) : orError e (none : Option α) = .error e := rfl

theorem orAbort_some (e : Abort) (a : α) : orAbort e (some a) = .ok a := rfl

theorem orError_eq_ok {e : ε} {o : Option α} {a : α} : orError e o = .ok a ↔ o = some a := by
  cases o <;> simp [orError]

theorem orAbort_eq_ok {e : Abort} {o : Option α} {a : α} : orAbort e o = .ok a ↔ o = some a := by
  cases o <;> simp [orAbort]

theorem liftM_eq_ok {x : Except DomainError α} {a : α} :
    (liftM x : Except Failure α) = .ok a ↔ x = .ok a := by
  cases x <;> simp [liftM, monadLift, MonadLift.monadLift, liftDomain]

/-- A computation with a result, told by evaluating it. -/
theorem exists_eq_ok {x : Except ε α} {P : α → Prop} (h : ∃ a ∈ x.toOption, P a) :
    ∃ a, x = .ok a ∧ P a := by
  cases x with
  | error e => simp [Except.toOption] at h
  | ok b => simpa [Except.toOption] using h

/-- Two computations, one upon the other, with their results. -/
theorem exists_both_eq_ok {x : Except ε α} {f : α → Except ε β} {P : α → β → Prop}
    (h : ∃ a ∈ x.toOption, ∃ b ∈ (f a).toOption, P a b) :
    ∃ a b, x = .ok a ∧ f a = .ok b ∧ P a b := by
  obtain ⟨a, first, h⟩ := exists_eq_ok h
  obtain ⟨b, second, h⟩ := exists_eq_ok h
  exact ⟨a, b, first, second, h⟩

/-! ### Failures of one kind -/

section FailsOnly

variable {P : Failure → Prop}

/-- Every failure of the computation is of this kind. -/
def FailsOnly (P : Failure → Prop) (x : Except Failure α) : Prop := ∀ f, x = .error f → P f

@[simp] theorem failsOnly_ok (a : α) : FailsOnly P (.ok a : Except Failure α) :=
  fun _ h => nomatch h

@[simp] theorem failsOnly_error_iff {f : Failure} :
    FailsOnly P (.error f : Except Failure α) ↔ P f := by
  simp [FailsOnly]

@[simp] theorem failsOnly_bind {x : Except Failure α} {f : α → Except Failure β} :
    FailsOnly P (x >>= f) ↔ FailsOnly P x ∧ ∀ a, x = .ok a → FailsOnly P (f a) := by
  cases x with
  | error e => simp [error_bind]
  | ok a => simp [ok_bind]

theorem failsOnly_orError {f : Failure} {o : Option α} (h : P f) : FailsOnly P (orError f o) := by
  cases o <;> simp [orError, h]

/-- Where the value is there, nothing aborts. -/
theorem failsOnly_orAbort {a : Abort} {o : Option α} (h : P (.abort a) ∨ ∃ x, o = some x) :
    FailsOnly P (orAbort a o) := by
  rcases h with h | ⟨x, rfl⟩
  · cases o <;> simp [orAbort, h]
  · exact failsOnly_ok x

theorem failsOnly_liftM {x : Except DomainError α} (h : ∀ e, P (.ofDomain e)) :
    FailsOnly P (liftM x : Except Failure α) := by
  cases x with
  | error e => exact failsOnly_error_iff.mpr (h e)
  | ok a => exact failsOnly_ok a

end FailsOnly

namespace Decimal

variable {a b c : Decimal}

theorem roundsTo_of_plus (h : a.plus b = .ok c) : RoundsTo (a.value + b.value) c :=
  roundsTo_of_add? (orAbort_eq_ok.mp h)

theorem roundsTo_of_minus (h : a.minus b = .ok c) : RoundsTo (a.value - b.value) c :=
  roundsTo_of_sub? (orAbort_eq_ok.mp h)

theorem roundsTo_of_times (h : a.times b = .ok c) : RoundsTo (a.value * b.value) c :=
  roundsTo_of_mul? (orAbort_eq_ok.mp h)

theorem roundsTo_of_dividedBy (h : a.dividedBy b = .ok c) : RoundsTo (a.value / b.value) c :=
  roundsTo_of_div? (orAbort_eq_ok.mp h)

end Decimal

end CrossBook
