import CrossBook.Json.Printer
import CrossBook.Proofs.Json.Reading
import CrossBook.Proofs.Text.Digits

/-!
# What is written is read

A value that is written is one of its own spellings, so it is read back: strings whatever their
characters, whole numbers, and lists and objects of values that are.

## Main definitions

* `Json.builtFields` — fields with their names as units

## Main results

* `Json.spelling_ofText`, `Json.spelling_ofInt`, `Json.spelling_array`, `Json.spelling_object` —
  written values are spellings
* `Json.renderChars_array` — how a list is written
* `Json.read?_render` — a written value is read back
* `Json.text?_ofText`, `Json.integer?_ofInt` — what texts and whole numbers stand for
-/

namespace CrossBook.Json

open Text

/-! ### Strings -/

/-- A control character is written as its code. -/
theorem hexUnit?_hexEscape {code : Nat} (h : code < 0x20) :
    hexUnit? (hexDigit (code / 4096)) (hexDigit (code / 256)) (hexDigit (code / 16))
      (hexDigit code) = some (.char (Char.ofNat code)) := by
  revert code
  decide

theorem unitSpelling_escapeChar (c : Char) : UnitSpelling (.char c) (escapeChar c) := by
  unfold escapeChar
  by_cases quote : c = '"'
  · subst quote
    exact .escaped rfl
  by_cases backslash : c = '\\'
  · subst backslash
    exact .escaped rfl
  rw [if_neg quote, if_neg backslash]
  -- What is left is one of five control characters with a letter, another one, or a character as it
  -- is.
  split_ifs with newline carriage tab back feed control
  · exact newline ▸ .escaped rfl
  · exact carriage ▸ .escaped rfl
  · exact tab ▸ .escaped rfl
  · exact back ▸ .escaped rfl
  · exact feed ▸ .escaped rfl
  · have code := hexUnit?_hexEscape control
    rw [Char.ofNat_toNat] at code
    exact .code code
  · exact .plain quote backslash (Nat.le_of_not_lt control)

theorem stringSpelling_unitsOfText (s : String) :
    StringSpelling (unitsOfText s) ((unitsOfText s).flatMap escapeUnit ++ ['"']) := by
  unfold unitsOfText
  induction s.toList with
  | nil => exact .closed
  | cons c cs ih =>
    rw [List.map_cons, List.flatMap_cons, List.append_assoc]
    exact .cons (unitSpelling_escapeChar c) ih

theorem spelling_ofText (s : String) : Spelling (ofText s) (ofText s).renderChars := by
  rw [ofText, renderChars]
  exact .string (stringSpelling_unitsOfText s)

theorem charsOfUnits?_unitsOfText (s : String) : charsOfUnits? (unitsOfText s) = some s.toList := by
  unfold unitsOfText
  induction s.toList with
  | nil => rfl
  | cons c cs ih => rw [List.map_cons, charsOfUnits?, ih, Option.map_some]

theorem textOfUnits?_unitsOfText (s : String) : textOfUnits? (unitsOfText s) = some s := by
  rw [textOfUnits?, charsOfUnits?_unitsOfText, Option.map_some, String.ofList_toList]

theorem text?_ofText (s : String) : (ofText s).text? = some s := textOfUnits?_unitsOfText s

/-! ### Whole numbers -/

theorem isWholePart_digits (n : Nat) : IsWholePart (digits n) :=
  ⟨⟨digits_ne_nil n, fun _ => isDigit_of_mem_digits⟩, fun zero => by
    rw [head?_digits zero, digits, if_pos (by decide)]
    rfl⟩

theorem spelling_ofInt (i : Int) : Spelling (ofInt i) (ofInt i).renderChars := by
  have written : NumeralSpelling (.ofInt i) _ := .mk (isWholePart_digits i.natAbs) .absent .absent
  rw [List.append_nil, List.append_nil] at written
  rw [ofInt, renderChars, numeralChars]
  simpa [Numeral.ofInt] using Spelling.number written

/-- A whole number within the signed words stands for itself. -/
theorem integer?_ofInt {i : Int} (low : -(twoTo 63 : Int) ≤ i) (high : i < twoTo 63) :
    (ofInt i).integer? = some i := by
  have words : twoTo 63 = 9223372036854775808 ∧ maxWord = 18446744073709551615 := by decide
  simp only [ofInt, integer?, Numeral.integer?, Numeral.ofInt, ofDigits_digits, words] at low high ⊢
  by_cases negative : i < 0
  · rw [decide_eq_true negative, if_pos rfl, if_pos (by omega)]
    exact congrArg some (by omega)
  · rw [decide_eq_false negative, if_neg Bool.false_ne_true, if_pos (by omega)]
    exact congrArg some (by omega)

theorem renderChars_ofInt (i : Int) : (ofInt i).renderChars = intChars i := by
  rw [ofInt, renderChars, numeralChars, intChars]
  by_cases negative : i < 0 <;> simp [Numeral.ofInt, negative]

/-- A whole number can be told from how it is written: its sign stands in front of the digits, which
stand for the rest. -/
theorem ofInt_injective : Function.Injective ofInt := by
  intro i j same
  obtain ⟨signs, written⟩ : decide (i < 0) = decide (j < 0) ∧ digits i.natAbs = digits j.natAbs := by
    simpa [ofInt, Numeral.ofInt] using same
  have magnitudes := congrArg ofDigits written
  rw [ofDigits_digits, ofDigits_digits] at magnitudes
  have negative := decide_eq_decide.mp signs
  omega

/-! ### Lists -/

/-- A list is written with commas between its values. -/
theorem renderChars_array (items : List Json) :
    (Json.array items).renderChars =
      '[' :: ([','].intercalate (items.map renderChars) ++ [']']) := by
  have behind : ∀ (first : Json) (rest : List Json),
      first.renderChars ++ renderItems rest =
        [','].intercalate ((first :: rest).map renderChars) ++ [']'] := by
    intro first rest
    induction rest generalizing first with
    | nil => simp [renderItems]
    | cons second rest ih => simp [renderItems, ih second]
  cases items with
  | nil => rfl
  | cons first rest => rw [renderChars, List.cons_append, behind]

/-- A list of written values is written. -/
theorem spelling_array {items : List Json} (values : ∀ v ∈ items, Spelling v v.renderChars) :
    Spelling (.array items) (Json.array items).renderChars := by
  -- The values behind the first are the same list with a comma in front.
  have behind : ∀ (first : Json) (rest : List Json),
      (∀ v ∈ first :: rest, Spelling v v.renderChars) →
      ItemsSpelling (first :: rest) (first.renderChars ++ renderItems rest) := by
    intro first rest
    induction rest generalizing first with
    | nil =>
      intro values
      have written := ItemsSpelling.last isBlank_nil (values first (by simp)) isBlank_nil
      simpa [renderItems] using written
    | cons second rest ih =>
      intro values
      have written := ItemsSpelling.cons isBlank_nil (values first (by simp)) isBlank_nil
        (ih second fun v among => values v (by simp [among]))
      simpa [renderItems] using written
  cases items with
  | nil => exact .emptyArray isBlank_nil
  | cons first rest =>
    rw [renderChars, List.cons_append]
    exact .array (behind first rest values)

/-! ### Objects -/

theorem nameSpelling_unitsOfText (name : String) :
    NameSpelling (unitsOfText name) (quote (unitsOfText name) ++ [':']) := by
  have written := NameSpelling.mk isBlank_nil (stringSpelling_unitsOfText name) isBlank_nil
    isBlank_nil
  simpa [quote] using written

/-- The fields of an object as it is built. -/
def builtFields (fields : List (String × Json)) : List (List CodeUnit × Json) :=
  fields.map fun f => (unitsOfText f.1, f.2)

theorem fieldsNamed_builtFields (name : String) (fields : List (String × Json)) :
    fieldsNamed name (builtFields fields) =
      (fields.filter fun f => f.1 = name).map (·.2) := by
  simp [fieldsNamed, builtFields, List.filter_map, textOfUnits?_unitsOfText, Function.comp_def]

theorem names_builtFields (fields : List (String × Json)) :
    (builtFields fields).all fun f => (charsOfUnits? f.1).isSome := by
  simp [builtFields, charsOfUnits?_unitsOfText]

/-- An object of written values is written. -/
theorem spelling_object {fields : List (String × Json)} (h : fields ≠ [])
    (values : ∀ f ∈ fields, Spelling f.2 f.2.renderChars) :
    Spelling (ofFields fields) (ofFields fields).renderChars := by
  -- The fields behind the first are the same list with a comma in front.
  have behind : ∀ (first : String × Json) (rest : List (String × Json)),
      (∀ f ∈ first :: rest, Spelling f.2 f.2.renderChars) →
      FieldsSpelling (builtFields (first :: rest))
        (quote (unitsOfText first.1) ++ ':' :: first.2.renderChars ++
          renderFields (builtFields rest)) := by
    intro first rest
    induction rest generalizing first with
    | nil =>
      intro values
      have written := FieldsSpelling.last (nameSpelling_unitsOfText first.1)
        (values first (by simp)) isBlank_nil
      simpa [builtFields, renderFields] using written
    | cons second rest ih =>
      intro values
      have written := FieldsSpelling.cons (nameSpelling_unitsOfText first.1)
        (values first (by simp)) isBlank_nil (ih second fun f among => values f (by simp [among]))
      simpa [builtFields, renderFields] using written
  cases fields with
  | nil => exact absurd rfl h
  | cons first rest =>
    rw [ofFields, List.map_cons, renderChars]
    exact .object (by simpa [builtFields] using behind first rest values)

/-- A written value is read back. -/
theorem read?_render {v : Json} (h : Spelling v v.renderChars) : read? v.render = some v :=
  read?_of_isText ⟨[], v.renderChars, [], isBlank_nil, h, isBlank_nil, by
    rw [render, String.toList_ofList, List.nil_append, List.append_nil]⟩

end CrossBook.Json
