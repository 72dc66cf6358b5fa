import CrossBook.Power
import CrossBook.Text.Digits
import Mathlib.Data.List.Basic
import Mathlib.Data.List.Induction
import Mathlib.Tactic.Ring

/-!
# Digits written and read

The digits of a number stand for it, and no zero stands in front of them unless the number is zero.
Zeros in front change nothing of what digits stand for.

## Main results

* `Text.ofDigits_digits` — the digits of a number stand for it
* `Text.head?_digits` — no zero stands in front
* `Text.length_padZeros`, `Text.ofDigits_padZeros` — zeros in front
-/

namespace CrossBook.Text

/-! ### One digit -/

theorem isDigit_digitChar (n : Nat) : isDigit (digitChar n) = true := by
  have small : n % 10 < 10 := Nat.mod_lt n (by decide)
  rw [digitChar]
  generalize n % 10 = d at small
  revert d
  decide

theorem digitValue_digitChar (n : Nat) : digitValue (digitChar n) = n % 10 := by
  have small : n % 10 < 10 := Nat.mod_lt n (by decide)
  rw [digitChar]
  generalize n % 10 = d at small
  revert d
  decide

/-! ### What digits stand for -/

@[simp] theorem ofDigitsFrom_nil (n : Nat) : ofDigitsFrom n [] = n := rfl

theorem ofDigitsFrom_cons (n : Nat) (c : Char) (cs : List Char) :
    ofDigitsFrom n (c :: cs) = ofDigitsFrom (n * 10 + digitValue c) cs := by
  rw [ofDigitsFrom, List.foldl_cons, ofDigitsFrom]

theorem ofDigits_append_singleton (cs : List Char) (c : Char) :
    ofDigits (cs ++ [c]) = ofDigits cs * 10 + digitValue c := by
  rw [ofDigits, ofDigits, ofDigitsFrom, ofDigitsFrom, List.foldl_append]
  rfl

/-- Digits behind a number move it up by as many places. -/
theorem ofDigitsFrom_eq (n : Nat) (cs : List Char) :
    ofDigitsFrom n cs = n * tenTo cs.length + ofDigits cs := by
  induction cs using List.reverseRecOn with
  | nil => simp [ofDigits]
  | append_singleton cs c ih =>
    have last : ofDigitsFrom n (cs ++ [c]) = ofDigitsFrom n cs * 10 + digitValue c := by
      rw [ofDigitsFrom, List.foldl_append]
      rfl
    rw [last, ih, ofDigits_append_singleton, List.length_append, List.length_singleton, tenTo_succ]
    ring

theorem le_ofDigitsFrom (n : Nat) (cs : List Char) : n ≤ ofDigitsFrom n cs := by
  rw [ofDigitsFrom_eq]
  exact Nat.le_add_right_of_le (Nat.le_mul_of_pos_right n (tenTo_pos _))

/-! ### The digits of a number -/

/-- A number is written with digits only. -/
theorem isDigit_of_mem_digits {n : Nat} {c : Char} (h : c ∈ digits n) : isDigit c = true := by
  induction n using digits.induct with
  | case1 n small =>
    rw [digits, if_pos small] at h
    exact List.mem_singleton.mp h ▸ isDigit_digitChar n
  | case2 n large ih =>
    rw [digits, if_neg large] at h
    rcases List.mem_append.mp h with before | last
    · exact ih before
    · exact List.mem_singleton.mp last ▸ isDigit_digitChar n

theorem digits_ne_nil (n : Nat) : digits n ≠ [] := by
  rw [digits]
  split <;> simp

theorem ofDigits_digits (n : Nat) : ofDigits (digits n) = n := by
  induction n using digits.induct with
  | case1 n small =>
    rw [digits, if_pos small, ofDigits, ofDigitsFrom_cons, digitValue_digitChar]
    simp [Nat.mod_eq_of_lt small]
  | case2 n large ih =>
    rw [digits, if_neg large, ofDigits_append_singleton, ih, digitValue_digitChar]
    omega

/-- Only zero has a zero in front. -/
theorem head?_digits {n : Nat} (h : (digits n).head? = some '0') : n = 0 := by
  induction n using digits.induct with
  | case1 n small =>
    rw [digits, if_pos small, List.head?_cons, Option.some.injEq] at h
    have value := digitValue_digitChar n
    rw [h, Nat.mod_eq_of_lt small] at value
    exact value.symm
  | case2 n large ih =>
    rw [digits, if_neg large, List.head?_append_of_ne_nil _ (digits_ne_nil _)] at h
    have := ih h
    omega

/-- A number below a power of ten has at most as many digits. -/
theorem length_digits_le {n k : Nat} (h : n < tenTo (k + 1)) : (digits n).length ≤ k + 1 := by
  induction k generalizing n with
  | zero =>
    have small : n < 10 := h
    simp [digits, small]
  | succ k ih =>
    rw [digits]
    split
    · simp
    · rw [List.length_append, List.length_singleton]
      exact Nat.succ_le_succ (ih (Nat.div_lt_of_lt_mul (by rwa [tenTo_succ, mul_comm] at h)))

/-! ### Zeros in front -/

theorem length_padZeros {width : Nat} {cs : List Char} (h : cs.length ≤ width) :
    (padZeros width cs).length = width := by
  simp [padZeros, h]

theorem ofDigits_padZeros (width : Nat) (cs : List Char) :
    ofDigits (padZeros width cs) = ofDigits cs := by
  have zeros (k : Nat) : ofDigitsFrom 0 (List.replicate k '0') = 0 := by
    induction k with
    | zero => rfl
    | succ k ih => exact ih
  have parts : ofDigits (padZeros width cs) =
      ofDigitsFrom (ofDigitsFrom 0 (List.replicate (width - cs.length) '0')) cs := by
    rw [ofDigits, padZeros, ofDigitsFrom, List.foldl_append]
    rfl
  rw [parts, zeros, ofDigits]

theorem isDigit_of_mem_padZeros {width n : Nat} {c : Char} (h : c ∈ padZeros width (digits n)) :
    isDigit c = true := by
  rcases List.mem_append.mp h with zero | digit
  · exact List.eq_of_mem_replicate zero ▸ rfl
  · exact isDigit_of_mem_digits digit

end CrossBook.Text
