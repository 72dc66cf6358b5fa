import CrossBook.Proofs.Json.Spelling
import Mathlib.Data.List.DropRight

/-!
# The reader reads every spelling

Each part of the reader takes the characters of its spelling from the front of a text and leaves the
rest, as long as the rest cannot continue a number.

## Main definitions

* `Json.Stops` — a text that does not continue a number

## Main results

* `Json.readString?_append`, `Json.readNumeral?_append` — strings and numbers at the front of a text
* `Json.readValue?_append` — a value at the front of a text
* `Json.read?_of_isText` — a value that is a whole text
-/

namespace CrossBook.Json

open Text

variable {cs ds rest gap : List Char} {v : Json} {fuel : Nat}

/-! ### White space -/

theorem skipSpace_append (blank : IsBlank gap) (cs : List Char) :
    skipSpace (gap ++ cs) = skipSpace cs :=
  List.dropWhile_append_of_pos blank

theorem skipSpace_cons {c : Char} (h : ¬ isSpace c) (cs : List Char) :
    skipSpace (c :: cs) = c :: cs :=
  List.dropWhile_cons_of_neg h

theorem IsBlank.skipSpace_eq (blank : IsBlank gap) : skipSpace gap = [] :=
  List.dropWhile_eq_nil_iff.mpr blank

theorem isBlank_nil : IsBlank [] := by
  rintro c ⟨⟩

theorem skipSpace_skipSpace (cs : List Char) : skipSpace (skipSpace cs) = skipSpace cs :=
  List.dropWhile_idempotent isSpace cs

/-! ### Strings -/

theorem readString?_of_unit {u : CodeUnit} (h : UnitSpelling u cs) (rest : List Char) :
    readString? (cs ++ rest) = (readString? rest).map fun p => (u :: p.1, p.2) := by
  cases h with
  | @plain c quote backslash printed =>
    have passes : ¬ (c = '\\' ∨ c.toNat < 0x20) := by
      rintro (rfl | control)
      · exact backslash rfl
      · omega
    rw [List.singleton_append, readString?.eq_5 c rest quote (fun _ _ _ _ _ h _ => backslash h)
      (fun _ _ h _ => backslash h), if_neg passes]
    cases readString? rest <;> rfl
  | @escaped e c h =>
    -- a backslash and the letter of a code do not escape a character
    have letter : e ≠ 'u' := by
      rintro rfl
      cases h
    rw [List.cons_append, List.singleton_append,
      readString?.eq_4 e rest (fun _ _ _ _ _ h _ => letter h), h]
    cases readString? rest <;> rfl
  | code h =>
    simp only [List.cons_append, List.nil_append]
    rw [readString?.eq_3, h]
    cases readString? rest <;> rfl

/-- A string is read up to its closing quote. -/
theorem readString?_append {units : List CodeUnit} (h : StringSpelling units cs)
    (rest : List Char) : readString? (cs ++ rest) = some (units, rest) := by
  induction h with
  | closed => rfl
  | cons first others ih => rw [List.append_assoc, readString?_of_unit first, ih, Option.map_some]

/-! ### Numbers -/

/-- The text does not continue a number. -/
def Stops (rest : List Char) : Prop :=
  ∀ c ∈ rest.head?, ¬ isDigit c ∧ c ≠ '.' ∧ c ≠ 'e' ∧ c ≠ 'E'

/-- The text does not continue digits. -/
def StopsDigits (rest : List Char) : Prop := ∀ c ∈ rest.head?, ¬ isDigit c

theorem stops_nil : Stops [] := by
  rintro c ⟨⟩

theorem Stops.digits (h : Stops rest) : StopsDigits rest := fun c first => (h c first).1

theorem stops_of_isSpace {c : Char} (h : isSpace c) : Stops (c :: rest) := by
  simp only [isSpace, Bool.or_eq_true, decide_eq_true_eq] at h
  rintro _ ⟨⟩
  rcases h with ((rfl | rfl) | rfl) | rfl <;> decide

/-- White space before a text that does not continue a number does not continue it either. -/
theorem Stops.append (h : Stops rest) (blank : IsBlank gap) : Stops (gap ++ rest) := by
  cases gap with
  | nil => exact h
  | cons c gap => exact stops_of_isSpace (blank c List.mem_cons_self)

theorem readDigits?_append (h : IsDigits ds) (stops : StopsDigits rest) :
    readDigits? (ds ++ rest) = some (ds, rest) := by
  have taken : (ds ++ rest).takeWhile isDigit = ds := by
    rw [List.takeWhile_append_of_pos h.2]
    cases rest with
    | nil => simp
    | cons c rest => rw [List.takeWhile_cons_of_neg (stops c rfl), List.append_nil]
  have left : (ds ++ rest).dropWhile isDigit = rest := by
    rw [List.dropWhile_append_of_pos h.2]
    cases rest with
    | nil => rfl
    | cons c rest => exact List.dropWhile_cons_of_neg (stops c rfl)
  rw [readDigits?, taken, left]
  cases ds with
  | nil => exact absurd rfl h.1
  | cons d ds => rfl

theorem readWhole?_append (h : IsWholePart ds) (stops : StopsDigits rest) :
    readWhole? (ds ++ rest) = some (ds, rest) := by
  obtain ⟨digits, zero⟩ := h
  cases ds with
  | nil => exact absurd rfl digits.1
  | cons d ds =>
    by_cases leading : d = '0'
    · subst leading
      obtain ⟨rfl⟩ : ds = [] := by simpa using zero rfl
      cases rest with
      | nil => rfl
      | cons c rest =>
        have : isDigit c = false := by simpa using stops c rfl
        simp [readWhole?, this]
    · rw [List.cons_append, readWhole?.eq_3 _ (fun rest h => leading (List.cons.inj h).1),
        ← List.cons_append, readDigits?_append digits stops]

theorem readFraction?_append {fraction : Option (List Char)} (h : FractionSpelling fraction cs)
    (stops : StopsDigits rest) (point : fraction = none → rest.head? ≠ some '.') :
    readFraction? (cs ++ rest) = some (fraction, rest) := by
  cases h with
  | absent =>
    rw [List.nil_append, readFraction?.eq_2]
    rintro rest rfl
    exact point rfl rfl
  | present digits =>
    rw [List.cons_append, readFraction?.eq_1, readDigits?_append digits stops]
    rfl

theorem readExponent?_append {exponent : Option (Bool × List Char)}
    (h : ExponentSpelling exponent cs) (stops : Stops rest) :
    readExponent? (cs ++ rest) = some (exponent, rest) := by
  cases h with
  | absent =>
    cases rest with
    | nil => rfl
    | cons c rest =>
      obtain ⟨-, -, lower, upper⟩ := stops c rfl
      simp [readExponent?, lower, upper]
  | @present mark negative sign ds marked signed digits =>
    rw [List.cons_append, List.append_assoc]
    have read := readDigits?_append digits stops.digits
    simp only [readExponent?, if_pos marked]
    cases signed with
    | plus => simp [read]
    | minus => simp [read]
    | unsigned =>
      -- the first digit is no sign
      obtain ⟨nonempty, all⟩ := digits
      cases ds with
      | nil => exact absurd rfl nonempty
      | cons d ds =>
        have digit : isDigit d := all d List.mem_cons_self
        have minus : d ≠ '-' := by rintro rfl; cases digit
        have plus : d ≠ '+' := by rintro rfl; cases digit
        simp only [List.nil_append, List.cons_append] at read ⊢
        split
        · next h => exact absurd (List.cons.inj h).1 minus
        · next h => exact absurd (List.cons.inj h).1 plus
        · rw [read, Option.map_some]

/-- Behind the places of a number its digits have ended. -/
theorem ExponentSpelling.stops {exponent : Option (Bool × List Char)}
    (h : ExponentSpelling exponent cs) (stops : Stops rest) :
    ∀ c ∈ (cs ++ rest).head?, ¬ isDigit c ∧ c ≠ '.' := by
  cases h with
  | absent => exact fun c first => ⟨(stops c first).1, (stops c first).2.1⟩
  | present marked =>
    rintro _ ⟨⟩
    rcases marked with rfl | rfl <;> decide

theorem FractionSpelling.stops {fraction : Option (List Char)} (h : FractionSpelling fraction cs)
    (stops : StopsDigits rest) : StopsDigits (cs ++ rest) := by
  cases h with
  | absent => exact stops
  | present =>
    rintro _ ⟨⟩
    decide

theorem readUnsigned?_append {whole fs es : List Char} {fraction : Option (List Char)}
    {exponent : Option (Bool × List Char)} (digits : IsWholePart whole)
    (places : FractionSpelling fraction fs) (power : ExponentSpelling exponent es)
    (stops : Stops rest) (negative : Bool) :
    readUnsigned? negative (whole ++ (fs ++ (es ++ rest)))
      = some (⟨negative, whole, fraction, exponent⟩, rest) := by
  have behindPlaces := power.stops stops
  have behindWhole : StopsDigits (es ++ rest) := fun c first => (behindPlaces c first).1
  rw [readUnsigned?, readWhole?_append digits (places.stops behindWhole), Option.bind_eq_bind,
    Option.bind_some]
  dsimp only
  rw [readFraction?_append places behindWhole fun _ first => (behindPlaces _ first).2 rfl,
    Option.bind_eq_bind, Option.bind_some]
  dsimp only
  rw [readExponent?_append power stops]
  rfl

/-- The first character of a number is its sign or a digit. -/
theorem NumeralSpelling.head {n : Numeral} (h : NumeralSpelling n cs) :
    ∃ c tail, cs = c :: tail ∧ (c = '-' ∨ isDigit c) := by
  obtain ⟨digits, places, power⟩ := h
  obtain ⟨⟨nonempty, all⟩, -⟩ := digits
  rename_i negative whole _ _ _ _
  cases negative with
  | true => exact ⟨_, _, rfl, .inl rfl⟩
  | false =>
    cases whole with
    | nil => exact absurd rfl nonempty
    | cons d ds => exact ⟨d, _, rfl, .inr (all d List.mem_cons_self)⟩

/-- A number is read up to what does not continue it. -/
theorem readNumeral?_append {n : Numeral} (h : NumeralSpelling n cs) (stops : Stops rest) :
    readNumeral? (cs ++ rest) = some (n, rest) := by
  cases h with
  | @mk negative whole _ _ fs es digits places power =>
    have read := readUnsigned?_append digits places power stops negative
    cases negative with
    | true => simpa [readNumeral?] using read
    | false =>
      have plain : ∀ tail, whole ++ (fs ++ (es ++ rest)) ≠ '-' :: tail := by
        obtain ⟨⟨nonempty, all⟩, -⟩ := digits
        cases whole with
        | nil => exact absurd rfl nonempty
        | cons d ds =>
          rintro tail h
          obtain rfl := (List.cons.inj h).1
          exact absurd (all '-' List.mem_cons_self) (by decide)
      simp only [Bool.false_eq_true, if_false, List.nil_append, List.append_assoc]
      rw [readNumeral?.eq_2 _ plain, read]

/-! ### Values -/

/-- The first character of a value is no white space and closes nothing. -/
theorem Spelling.head (h : Spelling v cs) :
    ∃ c tail, cs = c :: tail ∧ ¬ isSpace c ∧ c ≠ ']' ∧ c ≠ '\x7d' := by
  cases h with
  | number h =>
    obtain ⟨c, tail, rfl, rfl | digit⟩ := h.head
    · exact ⟨_, _, rfl, by decide⟩
    · refine ⟨c, tail, rfl, ?_, ?_, ?_⟩
      · intro space
        exact ((stops_of_isSpace space : Stops [c]) c rfl).1 digit
      · rintro rfl
        cases digit
      · rintro rfl
        cases digit
  | _ => exact ⟨_, _, rfl, by decide⟩

theorem Spelling.skipSpace_eq (h : Spelling v cs) (rest : List Char) :
    skipSpace (cs ++ rest) = cs ++ rest := by
  obtain ⟨c, tail, rfl, mark, -⟩ := h.head
  exact skipSpace_cons mark _

/-- White space before a value is passed over. -/
theorem readValue?_skipSpace (fuel : Nat) (cs : List Char) :
    readValue? fuel (skipSpace cs) = readValue? fuel cs := by
  cases fuel with
  | zero => rw [readValue?, readValue?]
  | succ fuel => rw [readValue?.eq_2, readValue?.eq_2, skipSpace_skipSpace]

theorem readItems?_skipSpace (fuel : Nat) (cs : List Char) :
    readItems? fuel (skipSpace cs) = readItems? fuel cs := by
  cases fuel with
  | zero => rw [readItems?, readItems?]
  | succ fuel => rw [readItems?.eq_2, readItems?.eq_2, readValue?_skipSpace]

theorem readFields?_skipSpace (fuel : Nat) (cs : List Char) :
    readFields? fuel (skipSpace cs) = readFields? fuel cs := by
  cases fuel with
  | zero => rw [readFields?, readFields?]
  | succ fuel => rw [readFields?.eq_2, readFields?.eq_2, skipSpace_skipSpace]

/-- What is left of the values of a list without the white space before them closes nothing. -/
theorem ItemsSpelling.skipSpace_eq {items : List Json} (h : ItemsSpelling items cs)
    (rest : List Char) : ∃ c tail, skipSpace (cs ++ rest) = c :: tail ∧ c ≠ ']' := by
  cases h with
  | last blank value _ | cons blank value _ _ =>
    obtain ⟨c, tail, rfl, mark, other, -⟩ := value.head
    rw [List.append_assoc, skipSpace_append blank]
    exact ⟨c, _, skipSpace_cons mark _, other⟩

theorem NameSpelling.skipSpace_eq {name : List CodeUnit} (h : NameSpelling name cs)
    (rest : List Char) : ∃ tail, skipSpace (cs ++ rest) = '"' :: tail := by
  obtain ⟨blank, -, -, -⟩ := h
  rw [List.append_assoc, skipSpace_append blank]
  exact ⟨_, skipSpace_cons (by decide) _⟩

theorem FieldsSpelling.skipSpace_eq {fields : List (List CodeUnit × Json)}
    (h : FieldsSpelling fields cs) (rest : List Char) :
    ∃ tail, skipSpace (cs ++ rest) = '"' :: tail := by
  cases h with
  | last named _ _ | cons named _ _ _ =>
    rw [List.append_assoc]
    exact named.skipSpace_eq _

theorem readValue?_of_number {c : Char} (h : c = '-' ∨ isDigit c) (fuel : Nat) (tail : List Char) :
    readValue? (fuel + 1) (c :: tail)
      = (readNumeral? (c :: tail)).map fun p => (.number p.1, p.2) := by
  have mark : ¬ isSpace c := by
    rcases h with rfl | digit
    · decide
    · exact fun space => ((stops_of_isSpace space : Stops [c]) c rfl).1 digit
  have other : ∀ d ∈ ['"', '[', '\x7b', 'n', 't', 'f'], c ≠ d := by
    rintro d member rfl
    rcases h with rfl | digit
    · revert member
      decide
    · simp only [List.mem_cons, List.not_mem_nil, or_false] at member
      rcases member with rfl | rfl | rfl | rfl | rfl | rfl <;> exact absurd digit (by decide)
  simp only [List.forall_mem_cons, ne_eq] at other
  rw [readValue?.eq_2, skipSpace_cons mark]
  split <;> simp_all

theorem readValue?_of_string (fuel : Nat) (tail : List Char) :
    readValue? (fuel + 1) ('"' :: tail) = (readString? tail).map fun p => (.string p.1, p.2) := by
  rw [readValue?.eq_2, skipSpace_cons (by decide)]
  rfl

theorem readValue?_of_emptyArray (blank : IsBlank gap) (fuel : Nat) (rest : List Char) :
    readValue? (fuel + 1) ('[' :: (gap ++ ']' :: rest)) = some (.array [], rest) := by
  have inside : skipSpace (gap ++ ']' :: rest) = ']' :: rest := by
    rw [skipSpace_append blank, skipSpace_cons (by decide)]
  simp [readValue?, skipSpace_cons, isSpace, inside]

theorem readValue?_of_emptyObject (blank : IsBlank gap) (fuel : Nat) (rest : List Char) :
    readValue? (fuel + 1) ('\x7b' :: (gap ++ '\x7d' :: rest)) = some (.object [], rest) := by
  have inside : skipSpace (gap ++ '\x7d' :: rest) = '\x7d' :: rest := by
    rw [skipSpace_append blank, skipSpace_cons (by decide)]
  simp [readValue?, skipSpace_cons, isSpace, inside]

theorem readValue?_of_array {items : List Json} (h : ItemsSpelling items cs) (fuel : Nat)
    (rest : List Char) : readValue? (fuel + 1) ('[' :: (cs ++ rest))
      = (readItems? fuel (cs ++ rest)).map fun p => (.array p.1, p.2) := by
  obtain ⟨c, tail, front, other⟩ := h.skipSpace_eq rest
  rw [← readItems?_skipSpace fuel (cs ++ rest), front]
  simp [readValue?, skipSpace_cons, isSpace, front, other]

theorem readValue?_of_object {fields : List (List CodeUnit × Json)} (h : FieldsSpelling fields cs)
    (fuel : Nat) (rest : List Char) : readValue? (fuel + 1) ('\x7b' :: (cs ++ rest))
      = (readFields? fuel (cs ++ rest)).map fun p => (.object p.1, p.2) := by
  obtain ⟨tail, front⟩ := h.skipSpace_eq rest
  rw [← readFields?_skipSpace fuel (cs ++ rest), front]
  simp [readValue?, skipSpace_cons, isSpace, front]

/-- The name of a field and its colon are read up to the value. -/
theorem readFields?_of_name {name : List CodeUnit} (h : NameSpelling name cs) (fuel : Nat)
    (rest : List Char) : readFields? (fuel + 1) (cs ++ rest) = (do
      let (v, rest) ← readValue? fuel rest
      match skipSpace rest with
      | '\x7d' :: rest => some ([(name, v)], rest)
      | ',' :: rest =>
        let (fields, rest) ← readFields? fuel rest
        some ((name, v) :: fields, rest)
      | _ => none) := by
  obtain ⟨blank, named, blankColon, blankAfter⟩ := h
  rename_i before ns colon after
  have start : skipSpace (before ++ '"' :: (ns ++ (colon ++ ':' :: (after ++ rest))))
      = '"' :: (ns ++ (colon ++ ':' :: (after ++ rest))) := by
    rw [skipSpace_append blank, skipSpace_cons (by decide)]
  have middle : skipSpace (colon ++ ':' :: (after ++ rest)) = ':' :: (after ++ rest) := by
    rw [skipSpace_append blankColon, skipSpace_cons (by decide)]
  have value : readValue? fuel (after ++ rest) = readValue? fuel rest := by
    rw [← readValue?_skipSpace, skipSpace_append blankAfter, readValue?_skipSpace]
  simp only [readFields?, List.append_assoc, List.cons_append, start, readString?_append named,
    Option.bind_eq_bind, Option.bind_some, middle]
  exact congrArg (Option.bind · _) value

/-- A mark between values ends a number, with white space before it or without. -/
theorem stops_of_mark {c : Char} (h : c ∈ [',', ']', '\x7d']) (blank : IsBlank gap)
    (rest : List Char) : Stops (gap ++ c :: rest) := by
  refine Stops.append ?_ blank
  rintro _ ⟨⟩
  simp only [List.mem_cons, List.not_mem_nil, or_false] at h
  rcases h with rfl | rfl | rfl <;> decide

theorem skipSpace_mark {c : Char} (h : c ∈ [',', ']', '\x7d']) (blank : IsBlank gap)
    (rest : List Char) : skipSpace (gap ++ c :: rest) = c :: rest := by
  rw [skipSpace_append blank]
  refine skipSpace_cons ?_ rest
  simp only [List.mem_cons, List.not_mem_nil, or_false] at h
  rcases h with rfl | rfl | rfl <;> decide

mutual
/-- A value is read up to what does not continue it. -/
theorem readValue?_append {v : Json} {cs gap : List Char} (h : Spelling v cs)
    (blank : IsBlank gap) (rest : List Char) (stops : Stops rest) (fuel : Nat)
    (enough : cs.length ≤ fuel) : readValue? fuel (gap ++ (cs ++ rest)) = some (v, rest) := by
  rw [← readValue?_skipSpace, skipSpace_append blank, readValue?_skipSpace]
  -- every value has a character, which pays for the first step
  obtain ⟨fuel, rfl⟩ : ∃ k, fuel = k + 1 := by
    obtain ⟨c, tail, rfl, -⟩ := h.head
    exact ⟨fuel - 1, by rw [List.length_cons] at enough; omega⟩
  cases h with
  | null | true | false => simp [readValue?, skipSpace, isSpace, behind?]
  | number h =>
    have read := readNumeral?_append h stops
    obtain ⟨c, tail, rfl, mark⟩ := h.head
    rw [List.cons_append] at read ⊢
    rw [readValue?_of_number mark, read, Option.map_some]
  | string h =>
    rw [List.cons_append, readValue?_of_string, readString?_append h, Option.map_some]
  | emptyArray blank =>
    simpa using readValue?_of_emptyArray blank fuel rest
  | emptyObject blank =>
    simpa using readValue?_of_emptyObject blank fuel rest
  | array h =>
    rw [List.length_cons] at enough
    rw [List.cons_append, readValue?_of_array h, readItems?_append h rest fuel (by omega),
      Option.map_some]
  | object h =>
    rw [List.length_cons] at enough
    rw [List.cons_append, readValue?_of_object h, readFields?_append h rest fuel (by omega),
      Option.map_some]

/-- The values of a list are read up to its closing bracket. -/
theorem readItems?_append {items : List Json} {cs : List Char} (h : ItemsSpelling items cs)
    (rest : List Char) (fuel : Nat) (enough : cs.length ≤ fuel) :
    readItems? fuel (cs ++ rest) = some (items, rest) := by
  cases h with
  | @last v before cs after blank value blankAfter =>
    simp only [List.length_append, List.length_singleton] at enough
    obtain ⟨fuel, rfl⟩ : ∃ k, fuel = k + 1 := ⟨fuel - 1, by omega⟩
    have read := readValue?_append value blank _
      (stops_of_mark (c := ']') (by decide) blankAfter rest) fuel (by omega)
    simp [readItems?, read, skipSpace_mark (c := ']') (by decide) blankAfter]
  | @cons v items before cs after others blank value blankAfter more =>
    simp only [List.length_append, List.length_cons] at enough
    obtain ⟨fuel, rfl⟩ : ∃ k, fuel = k + 1 := ⟨fuel - 1, by omega⟩
    have read := readValue?_append value blank _
      (stops_of_mark (c := ',') (by decide) blankAfter (others ++ rest)) fuel (by omega)
    have readOthers := readItems?_append more rest fuel (by omega)
    simp [readItems?, read, skipSpace_mark (c := ',') (by decide) blankAfter, readOthers]

/-- The fields of an object are read up to its closing brace. -/
theorem readFields?_append {fields : List (List CodeUnit × Json)} {cs : List Char}
    (h : FieldsSpelling fields cs) (rest : List Char) (fuel : Nat) (enough : cs.length ≤ fuel) :
    readFields? fuel (cs ++ rest) = some (fields, rest) := by
  cases h with
  | @last name v ns cs after named value blankAfter =>
    simp only [List.length_append, List.length_singleton] at enough
    obtain ⟨fuel, rfl⟩ : ∃ k, fuel = k + 1 := ⟨fuel - 1, by omega⟩
    have read := readValue?_append value isBlank_nil _
      (stops_of_mark (c := '\x7d') (by decide) blankAfter rest) fuel (by omega)
    rw [List.nil_append] at read
    simp [List.append_assoc, readFields?_of_name named, read,
      skipSpace_mark (c := '\x7d') (by decide) blankAfter]
  | @cons name v fields ns cs after others named value blankAfter more =>
    simp only [List.length_append, List.length_cons] at enough
    obtain ⟨fuel, rfl⟩ : ∃ k, fuel = k + 1 := ⟨fuel - 1, by omega⟩
    have read := readValue?_append value isBlank_nil _
      (stops_of_mark (c := ',') (by decide) blankAfter (others ++ rest)) fuel (by omega)
    rw [List.nil_append] at read
    have readOthers := readFields?_append more rest fuel (by omega)
    simp [List.append_assoc, readFields?_of_name named, read,
      skipSpace_mark (c := ',') (by decide) blankAfter, readOthers]
end

/-- A text of one value is read as that value. -/
theorem read?_of_isText {s : String} (h : IsText v s) : read? s = some v := by
  obtain ⟨before, cs, after, blank, spelled, blankAfter, text⟩ := h
  have stops : Stops after := by
    simpa using stops_nil.append blankAfter
  have read := readValue?_append spelled blank after stops (2 * s.toList.length + 1) (by
    rw [text, List.length_append, List.length_append]
    omega)
  rw [← text] at read
  rw [read?, readChars?, read]
  dsimp only
  rw [blankAfter.skipSpace_eq]
  rfl

end CrossBook.Json
