import CrossBook.Decimal.Text
import CrossBook.Proofs.Text.Digits

/-!
# Decimals written and read

A decimal is written with every place of its scale, so reading its text gives the same magnitude and
the same scale. Only the sign of a zero does not come back: it is written, and no numeral without an
exponent stands for a negative zero.

## Main definitions

* `Decimal.IsNegativeZero` — a zero with a sign
* `Decimal.withPlainZero` — the same decimal, but no zero is negative

## Main results

* `Decimal.ofChars?_chars` — what a written decimal is read as
* `Decimal.text_withPlainZero_iff` — the text stays the same unless it shows the sign of a zero
-/

namespace CrossBook.Decimal

open CrossBook.Text

/-! ### The sign of zero -/

/-- A zero with a sign. -/
def IsNegativeZero (d : Decimal) : Prop := d.isNegative ∧ d.magnitude = 0

instance (d : Decimal) : Decidable d.IsNegativeZero := inferInstanceAs (Decidable (_ ∧ _))

/-- The same decimal, but no zero is negative. -/
def withPlainZero (d : Decimal) : Decimal :=
  { d with isNegative := d.isNegative && decide (d.magnitude ≠ 0) }

variable {d : Decimal}

@[simp] theorem scale_withPlainZero : d.withPlainZero.scale = d.scale := rfl

theorem withPlainZero_of_not (h : ¬ d.IsNegativeZero) : d.withPlainZero = d := by
  have sign : (d.isNegative && decide (d.magnitude ≠ 0)) = d.isNegative := by
    cases negative : d.isNegative with
    | false => rfl
    | true => exact decide_eq_true fun zero => h ⟨negative, zero⟩
  rw [withPlainZero, sign]

theorem not_isNegativeZero_withPlainZero : ¬ d.withPlainZero.IsNegativeZero := by
  simp [IsNegativeZero, withPlainZero]

theorem coefficient_withPlainZero : d.withPlainZero.coefficient = d.coefficient := by
  by_cases zero : d.magnitude = 0 <;> simp [coefficient, withPlainZero, zero]

/-- The sign of a zero is not seen by value. -/
theorem sameValue_withPlainZero : d.SameValue d.withPlainZero := by
  rw [SameValue, units, units, coefficient_withPlainZero, scale_withPlainZero]

/-- Only the text shows the sign of a zero. -/
theorem text_withPlainZero_iff : d.withPlainZero.text = d.text ↔ ¬ d.IsNegativeZero := by
  refine ⟨fun same => ?_, fun h => congrArg text (withPlainZero_of_not h)⟩
  rintro ⟨negative, zero⟩
  have chars : d.withPlainZero.chars = d.chars := String.ofList_injective same
  have lengths := congrArg List.length chars
  simp [Decimal.chars, withPlainZero, negative, zero] at lengths

/-! ### Reading what was written -/

/-- Whole digits are read into the coefficient. -/
theorem scanDigits?_whole {cs : List Char} (allDigits : ∀ c ∈ cs, isDigit c) (m : Nat)
    (started : Bool) (rest : List Char) (fits : ofDigitsFrom m cs ≤ maxCoefficient) :
    scanDigits? (cs ++ rest) m 0 false started =
      scanDigits? rest (ofDigitsFrom m cs) 0 false (started || !cs.isEmpty) := by
  induction cs generalizing m started with
  | nil => simp
  | cons c cs ih =>
    obtain ⟨first, others⟩ := List.forall_mem_cons.mp allDigits
    rw [ofDigitsFrom_cons] at fits ⊢
    have fitsFirst := Nat.le_trans (le_ofDigitsFrom _ cs) fits
    rw [List.cons_append, scanDigits?, if_pos first]
    simp only [Bool.false_eq_true, if_false, if_pos fitsFirst]
    rw [ih others _ _ fits]
    simp

/-- Digits behind the point are read into the coefficient, a place each. -/
theorem scanDigits?_places {cs : List Char} (allDigits : ∀ c ∈ cs, isDigit c) (m places : Nat)
    (room : places + cs.length ≤ maxScale) (fits : ofDigitsFrom m cs ≤ maxCoefficient) :
    scanDigits? cs m places true true = some (ofDigitsFrom m cs, places + cs.length) := by
  induction cs generalizing m places with
  | nil => rfl
  | cons c cs ih =>
    obtain ⟨first, others⟩ := List.forall_mem_cons.mp allDigits
    rw [ofDigitsFrom_cons] at fits ⊢
    rw [List.length_cons] at room ⊢
    have fitsFirst := Nat.le_trans (le_ofDigitsFrom _ cs) fits
    have roomFirst : places < maxScale := by omega
    rw [scanDigits?, if_pos first]
    simp only [if_true, if_pos (And.intro roomFirst fitsFirst)]
    rw [ih others _ _ (by omega) fits, Nat.add_assoc, Nat.add_comm 1]

/-- A magnitude is read back with all its places. -/
theorem scanDigits?_magnitudeChars {m places : Nat} (fits : m ≤ maxCoefficient)
    (room : places ≤ maxScale) :
    scanDigits? (magnitudeChars m places) 0 0 false false = some (m, places) := by
  have some_digit (n : Nat) : (false || !(digits n).isEmpty) = true := by simp [digits_ne_nil]
  unfold magnitudeChars
  split
  next none_behind =>
    -- without places there is no point, and all digits are whole ones
    have whole := scanDigits?_whole (fun _ => isDigit_of_mem_digits (n := m)) 0 false []
      ((ofDigits_digits m).trans_le fits)
    rw [List.append_nil, some_digit] at whole
    rw [whole, scanDigits?, none_behind]
    exact congrArg (fun n => some (n, 0)) (ofDigits_digits m)
  next some_behind =>
    obtain ⟨k, rfl⟩ := Nat.exists_eq_succ_of_ne_zero some_behind
    have inside : m % tenTo (k + 1) < tenTo (k + 1) := Nat.mod_lt _ (tenTo_pos _)
    have width := length_padZeros (length_digits_le inside)
    -- the zeros in front make the places as many digits as the scale says
    have together : ofDigitsFrom (m / tenTo (k + 1))
        (padZeros (k + 1) (digits (m % tenTo (k + 1)))) = m := by
      rw [ofDigitsFrom_eq, width, ofDigits_padZeros, ofDigits_digits, Nat.mul_comm]
      exact Nat.div_add_mod m _
    have before : ofDigitsFrom 0 (digits (m / tenTo (k + 1))) = m / tenTo (k + 1) :=
      ofDigits_digits _
    rw [scanDigits?_whole (fun _ => isDigit_of_mem_digits) 0 false _
      (before.trans_le ((Nat.div_le_self _ _).trans fits)), before, some_digit]
    have behind := scanDigits?_places (fun _ => isDigit_of_mem_padZeros) (m / tenTo (k + 1)) 0
      (by rwa [width, Nat.zero_add]) (together.trans_le fits)
    rw [together, width, Nat.zero_add] at behind
    exact behind

theorem exists_digit_magnitudeChars (m places : Nat) :
    ∃ c rest, magnitudeChars m places = c :: rest ∧ isDigit c := by
  have front (n : Nat) (tail : List Char) :
      ∃ c rest, digits n ++ tail = c :: rest ∧ isDigit c := by
    obtain ⟨c, rest, eq⟩ := List.exists_cons_of_ne_nil (digits_ne_nil n)
    exact ⟨c, rest ++ tail, by rw [eq, List.cons_append],
      isDigit_of_mem_digits (eq ▸ List.mem_cons_self)⟩
  unfold magnitudeChars
  split
  · simpa using front m []
  · exact front _ _

/-- A written decimal is read as itself, but for the sign of a zero. -/
theorem ofChars?_chars (d : Decimal) : ofChars? d.chars = some d.withPlainZero := by
  have read := scanDigits?_magnitudeChars d.magnitude_le d.scale_le
  have numeral : scanNumeral? d.chars = some (d.coefficient, d.scale) := by
    unfold chars coefficient
    cases d.isNegative with
    | true => simp [scanNumeral?, read]
    | false =>
      -- a digit in front is no sign
      obtain ⟨c, rest, eq, digit⟩ := exists_digit_magnitudeChars d.magnitude d.scale
      rw [eq] at read
      simp only [eq, Bool.false_eq_true, if_false]
      unfold scanNumeral?
      split <;> simp_all [isDigit]
  have sign : decide (d.coefficient < 0) = (d.isNegative && decide (d.magnitude ≠ 0)) := by
    unfold coefficient
    cases d.isNegative <;> simp [Nat.pos_iff_ne_zero]
  have parts : ofParts? d.coefficient d.scale = some d.withPlainZero := by
    rw [ofParts?, sign, natAbs_coefficient, ofSigned?, dif_pos ⟨d.magnitude_le, d.scale_le⟩]
    rfl
  rw [ofChars?, ofNumeral?, numeral, Option.bind_some, parts]

theorem ofText?_text (d : Decimal) : ofText? d.text = some d.withPlainZero := by
  rw [ofText?, text, String.toList_ofList, ofChars?_chars]

end CrossBook.Decimal
