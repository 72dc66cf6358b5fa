import CrossBook.Proofs.Failure
import CrossBook.Tick

/-!
# Failures that say that the state cannot be

Arithmetic has no such failure, nor has anything that is computed from amounts, ticks and prices
alone. What remains is the direction of an order.

## Main definitions

* `Failure.IsInvalid` — a failure that says that the state cannot be
* `Tame` — a computation without such failures

## Main results

* `tame_bind` — a computation is tame when its parts are
* `Amount.tame_shift`, `Tick.tame_price` and what is built on them
-/

namespace CrossBook

variable {α β : Type}

/-- The failure says that the state cannot be. -/
def Failure.IsInvalid : Failure → Prop
  | .error e => e.severity = .invalidState
  | .abort (.invalidState _) => True
  | .abort _ => False

/-- No failure of the computation says that the state cannot be. -/
def Tame (x : Except Failure α) : Prop := ∀ f, x = .error f → ¬ f.IsInvalid

@[simp] theorem tame_ok (a : α) : Tame (.ok a : Except Failure α) := failsOnly_ok a

@[simp] theorem tame_error_iff {f : Failure} :
    Tame (.error f : Except Failure α) ↔ ¬ f.IsInvalid := failsOnly_error_iff

/-- Of the failures that are errors, those of that severity say that the state cannot be. -/
theorem tame_report_iff {e : Error} :
    Tame (.error (.error e) : Except Failure α) ↔ e.severity ≠ .invalidState := tame_error_iff

theorem tame_abort_iff {a : Abort} :
    Tame (.error (.abort a) : Except Failure α) ↔ ∀ text, a ≠ .invalidState text := by
  rw [tame_error_iff]
  cases a <;> simp [Failure.IsInvalid]

@[simp] theorem tame_bind {x : Except Failure α} {f : α → Except Failure β} :
    Tame (x >>= f) ↔ Tame x ∧ ∀ a, x = .ok a → Tame (f a) := failsOnly_bind

@[simp] theorem tame_map {x : Except Failure α} {f : α → β} : Tame (x.map f) ↔ Tame x := by
  cases x <;> simp [Except.map]

@[simp] theorem tame_ite {p : Prop} [Decidable p] {x y : Except Failure α} :
    Tame (if p then x else y) ↔ (p → Tame x) ∧ (¬ p → Tame y) := by
  split_ifs with h <;> simp [h]

/-- A lack of data does not say that the state cannot be. -/
theorem Failure.not_isInvalid_ofDomain {e : DomainError} (lack : e.severity = .dataUnavailable) :
    ¬ (ofDomain e).IsInvalid := by
  intro invalid
  cases lack.symm.trans invalid

theorem tame_orError {f : Failure} {o : Option α} (h : ¬ f.IsInvalid) : Tame (orError f o) :=
  failsOnly_orError h

theorem tame_orAbort {a : Abort} {o : Option α} (h : ¬ (Failure.abort a).IsInvalid) :
    Tame (orAbort a o) :=
  failsOnly_orAbort (.inl h)

@[simp] theorem tame_liftM {x : Except DomainError α} :
    Tame (liftM x : Except Failure α) ↔ Tame (liftDomain x) := Iff.rfl

theorem tame_liftDomain_orError {e : DomainError} {o : Option α}
    (lack : e.severity = .dataUnavailable) : Tame (liftDomain (orError e o)) := by
  cases o with
  | none => exact tame_error_iff.mpr (Failure.not_isInvalid_ofDomain lack)
  | some a => exact tame_ok a

theorem liftDomain_bind {x : Except DomainError α} {f : α → Except DomainError β} :
    liftDomain (x >>= f) = liftDomain x >>= fun a => liftDomain (f a) := by
  cases x <;> rfl

namespace Decimal

@[simp] theorem tame_plus (a b : Decimal) : Tame (a.plus b) := tame_orAbort id

@[simp] theorem tame_minus (a b : Decimal) : Tame (a.minus b) := tame_orAbort id

@[simp] theorem tame_times (a b : Decimal) : Tame (a.times b) := tame_orAbort id

@[simp] theorem tame_dividedBy (a b : Decimal) : Tame (a.dividedBy b) := tame_orAbort id

end Decimal

namespace Amount

@[simp] theorem tame_negated (e : Int) : Tame (negated e) := by
  simp [negated, Failure.IsInvalid]

@[simp] theorem tame_shift (v : Decimal) (e : Int) : Tame (shift v e) := by
  have overflow : ¬ shiftOverflow.IsInvalid := Failure.not_isInvalid_ofDomain rfl
  simp [shift, tame_orError overflow]

@[simp] theorem tame_toNative (human : Decimal) (decimals : Nat) :
    Tame (toNative human decimals) := by
  simp [toNative]

@[simp] theorem tame_toHuman (native : Decimal) (decimals : Nat) :
    Tame (toHuman native decimals) := by
  simp [toHuman]

end Amount

namespace Tick

@[simp] theorem tame_price (t : Int) : Tame (liftDomain (price t)) := by
  unfold price
  split_ifs
  · exact tame_ok _
  · exact tame_liftDomain_orError rfl
  · exact tame_error_iff.mpr (Failure.not_isInvalid_ofDomain rfl)

end Tick

namespace Units

variable (u : Units)

@[simp] theorem tame_exponent : Tame u.exponent := by
  unfold exponent
  simp [Failure.IsInvalid]

@[simp] theorem tame_toHumanPrice (p : Decimal) : Tame (u.toHumanPrice p) := by
  simp [toHumanPrice]

@[simp] theorem tame_toChainPrice (p : Decimal) : Tame (u.toChainPrice p) := by
  simp [toChainPrice]

@[simp] theorem tame_humanPriceOfTick (t : Int) : Tame (u.humanPriceOfTick t) := by
  simp [humanPriceOfTick]

end Units

end CrossBook
