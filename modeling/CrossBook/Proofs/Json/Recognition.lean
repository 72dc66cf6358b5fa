import CrossBook.Proofs.Json.Reading

/-!
# The reader reads nothing but spellings

What the reader takes from the front of a text is a spelling of the value that it answers with, so
the texts that it reads are the texts of values, each of one value. Whether a text is one of a value
is decided by reading it.

## Main definitions

* `Json.isSame` — two values are written the same

## Main results

* `Json.reads` — what is taken for a value is a spelling of it
* `Json.read?_eq_some_iff` — the texts of a value are those that are read as it
-/

namespace CrossBook.Json

open Text

variable {cs ds rest : List Char}

theorem exists_blank_skipSpace (cs : List Char) :
    ∃ gap, IsBlank gap ∧ cs = gap ++ skipSpace cs :=
  ⟨cs.takeWhile isSpace, fun _ member => List.mem_takeWhile_imp member,
    List.takeWhile_append_dropWhile.symm⟩

/-- White space, and behind it what is left without it. -/
theorem exists_blank_of_skipSpace {tail : List Char} (h : skipSpace cs = tail) :
    ∃ gap, IsBlank gap ∧ cs = gap ++ tail :=
  h ▸ exists_blank_skipSpace cs

/-! ### Strings -/

theorem exists_spelling_of_readString? {units : List CodeUnit}
    (h : readString? cs = some (units, rest)) :
    ∃ text, StringSpelling units text ∧ cs = text ++ rest := by
  fun_induction readString? cs generalizing units with
  | case1 => cases h
  | case2 tail =>
    cases h
    exact ⟨_, .closed, rfl⟩
  | case3 a b c d tail ih =>
    simp only [Option.bind_eq_bind, Option.bind_eq_some_iff, Option.some.injEq, Prod.mk.injEq,
      Prod.exists] at h
    obtain ⟨u, coded, units, rest, read, rfl, rfl⟩ := h
    obtain ⟨text, spelled, rfl⟩ := ih read
    exact ⟨_, .cons (.code coded) spelled, rfl⟩
  | case4 e tail _ ih =>
    simp only [Option.bind_eq_bind, Option.bind_eq_some_iff, Option.some.injEq, Prod.mk.injEq,
      Prod.exists] at h
    obtain ⟨c, letter, units, rest, read, rfl, rfl⟩ := h
    obtain ⟨text, spelled, rfl⟩ := ih read
    exact ⟨_, .cons (.escaped letter) spelled, rfl⟩
  | case5 => cases h
  | case6 c tail quote _ _ plain ih =>
    simp only [Option.bind_eq_bind, Option.bind_eq_some_iff, Option.some.injEq, Prod.mk.injEq,
      Prod.exists] at h
    obtain ⟨units, rest, read, rfl, rfl⟩ := h
    obtain ⟨text, spelled, rfl⟩ := ih read
    obtain ⟨backslash, printed⟩ := not_or.mp plain
    exact ⟨_, .cons (.plain quote backslash (not_lt.mp printed)) spelled, rfl⟩

/-! ### Numbers -/

theorem isDigits_of_readDigits? (h : readDigits? cs = some (ds, rest)) :
    IsDigits ds ∧ cs = ds ++ rest := by
  unfold readDigits? at h
  split at h
  · cases h
  · next nonempty =>
    obtain ⟨rfl, rfl⟩ := Prod.mk.inj (Option.some.inj h)
    exact ⟨⟨nonempty, fun _ member => List.mem_takeWhile_imp member⟩,
      List.takeWhile_append_dropWhile.symm⟩

theorem isWholePart_of_readWhole? (h : readWhole? cs = some (ds, rest)) :
    IsWholePart ds ∧ cs = ds ++ rest := by
  have zero : IsWholePart ['0'] := ⟨⟨by decide, List.forall_mem_singleton.mpr rfl⟩, fun _ => rfl⟩
  unfold readWhole? at h
  split at h
  · split at h
    · split_ifs at h
      obtain ⟨rfl, rfl⟩ := Prod.mk.inj (Option.some.inj h)
      exact ⟨zero, rfl⟩
    · obtain ⟨rfl, rfl⟩ := Prod.mk.inj (Option.some.inj h)
      exact ⟨zero, rfl⟩
  · next other =>
    obtain ⟨digits, rfl⟩ := isDigits_of_readDigits? h
    refine ⟨⟨digits, fun leading => ?_⟩, rfl⟩
    cases ds with
    | nil => cases leading
    | cons d ds =>
      obtain rfl := Option.some.inj leading
      exact absurd rfl (other _)

theorem exists_spelling_of_readFraction? {fraction : Option (List Char)}
    (h : readFraction? cs = some (fraction, rest)) :
    ∃ text, FractionSpelling fraction text ∧ cs = text ++ rest := by
  unfold readFraction? at h
  split at h
  · obtain ⟨⟨ds, left⟩, read, parts⟩ := Option.map_eq_some_iff.mp h
    obtain ⟨digits, rfl⟩ := isDigits_of_readDigits? read
    obtain ⟨rfl, rfl⟩ := Prod.mk.inj parts
    exact ⟨_, .present digits, rfl⟩
  · obtain ⟨rfl, rfl⟩ := Prod.mk.inj (Option.some.inj h)
    exact ⟨_, .absent, rfl⟩

theorem exists_spelling_of_readExponent? {exponent : Option (Bool × List Char)}
    (h : readExponent? cs = some (exponent, rest)) :
    ∃ text, ExponentSpelling exponent text ∧ cs = text ++ rest := by
  unfold readExponent? at h
  split at h
  · obtain ⟨rfl, rfl⟩ := Prod.mk.inj (Option.some.inj h)
    exact ⟨_, .absent, rfl⟩
  · split_ifs at h with marked
    · -- a minus, a plus, or none of them
      split at h
      all_goals
        obtain ⟨⟨ds, left⟩, read, parts⟩ := Option.map_eq_some_iff.mp h
        obtain ⟨digits, rfl⟩ := isDigits_of_readDigits? read
        obtain ⟨rfl, rfl⟩ := Prod.mk.inj parts
      · exact ⟨_, .present marked .minus digits, rfl⟩
      · exact ⟨_, .present marked .plus digits, rfl⟩
      · exact ⟨_, .present marked .unsigned digits, rfl⟩
    · obtain ⟨rfl, rfl⟩ := Prod.mk.inj (Option.some.inj h)
      exact ⟨_, .absent, rfl⟩

theorem exists_spelling_of_readUnsigned? {negative : Bool} {n : Numeral}
    (h : readUnsigned? negative cs = some (n, rest)) :
    ∃ text, NumeralSpelling n ((if negative then ['-'] else []) ++ text) ∧ cs = text ++ rest := by
  simp only [readUnsigned?, Option.bind_eq_bind, Option.bind_eq_some_iff, Option.some.injEq,
    Prod.mk.injEq, Prod.exists] at h
  obtain ⟨whole, left, readWhole, fraction, left', readFraction, exponent, left'', readExponent,
    rfl, rfl⟩ := h
  obtain ⟨digits, rfl⟩ := isWholePart_of_readWhole? readWhole
  obtain ⟨fs, places, rfl⟩ := exists_spelling_of_readFraction? readFraction
  obtain ⟨es, power, rfl⟩ := exists_spelling_of_readExponent? readExponent
  exact ⟨_, .mk digits places power, by simp⟩

theorem exists_spelling_of_readNumeral? {n : Numeral} (h : readNumeral? cs = some (n, rest)) :
    ∃ text, NumeralSpelling n text ∧ cs = text ++ rest := by
  unfold readNumeral? at h
  split at h
  · obtain ⟨text, spelled, rfl⟩ := exists_spelling_of_readUnsigned? h
    exact ⟨_, spelled, rfl⟩
  · obtain ⟨text, spelled, rfl⟩ := exists_spelling_of_readUnsigned? h
    exact ⟨_, spelled, rfl⟩

/-! ### Values -/

theorem eq_of_behind? {word : List Char} (h : behind? word cs = some rest) : cs = word ++ rest := by
  fun_induction behind? word cs with
  | case1 => exact Option.some.inj h
  | case2 => cases h
  | case3 w word cs ih => rw [ih h, List.cons_append]
  | case4 => cases h

/-- With so much fuel, what is taken for a value is a spelling of it, with white space before it. -/
def ReadsValues (fuel : Nat) : Prop :=
  ∀ cs v rest, readValue? fuel cs = some (v, rest) →
    ∃ gap text, IsBlank gap ∧ Spelling v text ∧ cs = gap ++ (text ++ rest)

/-- With so much fuel, what is taken for the values of a list is a spelling of them. -/
def ReadsItems (fuel : Nat) : Prop :=
  ∀ cs items rest, readItems? fuel cs = some (items, rest) →
    ∃ text, ItemsSpelling items text ∧ cs = text ++ rest

/-- With so much fuel, what is taken for the fields of an object is a spelling of them. -/
def ReadsFields (fuel : Nat) : Prop :=
  ∀ cs fields rest, readFields? fuel cs = some (fields, rest) →
    ∃ text, FieldsSpelling fields text ∧ cs = text ++ rest

theorem ReadsValues.succ {fuel : Nat} (items : ReadsItems fuel) (fields : ReadsFields fuel) :
    ReadsValues (fuel + 1) := by
  intro cs v rest h
  rw [readValue?.eq_2] at h
  obtain ⟨gap, blank, split_cs⟩ := exists_blank_skipSpace cs
  generalize skipSpace cs = tail at h split_cs
  subst split_cs
  -- it remains to find a spelling at the front of what is behind the white space
  suffices spelled : ∃ text, Spelling v text ∧ tail = text ++ rest by
    obtain ⟨text, spelled, rfl⟩ := spelled
    exact ⟨gap, text, blank, spelled, rfl⟩
  split at h
  · cases h
  · -- a string
    obtain ⟨⟨units, left⟩, read, parts⟩ := Option.map_eq_some_iff.mp h
    obtain ⟨rfl, rfl⟩ := Prod.mk.inj parts
    obtain ⟨text, spelled, rfl⟩ := exists_spelling_of_readString? read
    exact ⟨_, .string spelled, rfl⟩
  · -- a list, which may end at once
    split at h
    · next closing =>
      obtain ⟨inside, blank, rfl⟩ := exists_blank_of_skipSpace closing
      obtain ⟨rfl, rfl⟩ := Prod.mk.inj (Option.some.inj h)
      exact ⟨_, .emptyArray blank, by simp⟩
    · rw [readItems?_skipSpace] at h
      obtain ⟨⟨values, left⟩, read, parts⟩ := Option.map_eq_some_iff.mp h
      obtain ⟨rfl, rfl⟩ := Prod.mk.inj parts
      obtain ⟨text, spelled, rfl⟩ := items _ _ _ read
      exact ⟨_, .array spelled, rfl⟩
  · -- an object, which may end at once
    split at h
    · next closing =>
      obtain ⟨inside, blank, rfl⟩ := exists_blank_of_skipSpace closing
      obtain ⟨rfl, rfl⟩ := Prod.mk.inj (Option.some.inj h)
      exact ⟨_, .emptyObject blank, by simp⟩
    · rw [readFields?_skipSpace] at h
      obtain ⟨⟨values, left⟩, read, parts⟩ := Option.map_eq_some_iff.mp h
      obtain ⟨rfl, rfl⟩ := Prod.mk.inj parts
      obtain ⟨text, spelled, rfl⟩ := fields _ _ _ read
      exact ⟨_, .object spelled, rfl⟩
  -- the three words
  · obtain ⟨left, read, parts⟩ := Option.map_eq_some_iff.mp h
    obtain ⟨rfl, rfl⟩ := Prod.mk.inj parts
    exact ⟨_, .null, by rw [eq_of_behind? read]; rfl⟩
  · obtain ⟨left, read, parts⟩ := Option.map_eq_some_iff.mp h
    obtain ⟨rfl, rfl⟩ := Prod.mk.inj parts
    exact ⟨_, .true, by rw [eq_of_behind? read]; rfl⟩
  · obtain ⟨left, read, parts⟩ := Option.map_eq_some_iff.mp h
    obtain ⟨rfl, rfl⟩ := Prod.mk.inj parts
    exact ⟨_, .false, by rw [eq_of_behind? read]; rfl⟩
  · -- anything else is a number or nothing
    obtain ⟨⟨n, left⟩, read, parts⟩ := Option.map_eq_some_iff.mp h
    obtain ⟨rfl, rfl⟩ := Prod.mk.inj parts
    obtain ⟨text, spelled, rfl⟩ := exists_spelling_of_readNumeral? read
    exact ⟨_, .number spelled, rfl⟩

theorem ReadsItems.succ {fuel : Nat} (values : ReadsValues fuel) (items : ReadsItems fuel) :
    ReadsItems (fuel + 1) := by
  intro cs read rest h
  rw [readItems?.eq_2] at h
  obtain ⟨⟨v, left⟩, readValue, behind⟩ := Option.bind_eq_some_iff.mp h
  obtain ⟨gap, text, blank, spelled, rfl⟩ := values _ _ _ readValue
  dsimp only at behind
  split at behind
  · next closing =>
    obtain ⟨after, blankAfter, rfl⟩ := exists_blank_of_skipSpace closing
    obtain ⟨rfl, rfl⟩ := Prod.mk.inj (Option.some.inj behind)
    exact ⟨_, .last blank spelled blankAfter, by simp⟩
  · next comma =>
    obtain ⟨after, blankAfter, rfl⟩ := exists_blank_of_skipSpace comma
    obtain ⟨⟨others, left⟩, readOthers, ended⟩ := Option.bind_eq_some_iff.mp behind
    obtain ⟨more, spelledOthers, rfl⟩ := items _ _ _ readOthers
    obtain ⟨rfl, rfl⟩ := Prod.mk.inj (Option.some.inj ended)
    exact ⟨_, .cons blank spelled blankAfter spelledOthers, by simp⟩
  · cases behind

theorem ReadsFields.succ {fuel : Nat} (values : ReadsValues fuel) (fields : ReadsFields fuel) :
    ReadsFields (fuel + 1) := by
  intro cs read rest h
  rw [readFields?.eq_2] at h
  split at h
  · next quote =>
    obtain ⟨before, blankBefore, rfl⟩ := exists_blank_of_skipSpace quote
    obtain ⟨⟨name, left⟩, readName, behindName⟩ := Option.bind_eq_some_iff.mp h
    obtain ⟨ns, named, rfl⟩ := exists_spelling_of_readString? readName
    dsimp only at behindName
    split at behindName
    · next colon =>
      obtain ⟨middle, blankColon, rfl⟩ := exists_blank_of_skipSpace colon
      obtain ⟨⟨v, left⟩, readValue, behind⟩ := Option.bind_eq_some_iff.mp behindName
      obtain ⟨gap, text, blank, spelled, rfl⟩ := values _ _ _ readValue
      have spelledName := NameSpelling.mk blankBefore named blankColon blank
      dsimp only at behind
      split at behind
      · next closing =>
        obtain ⟨after, blankAfter, rfl⟩ := exists_blank_of_skipSpace closing
        obtain ⟨rfl, rfl⟩ := Prod.mk.inj (Option.some.inj behind)
        exact ⟨_, .last spelledName spelled blankAfter, by simp⟩
      · next comma =>
        obtain ⟨after, blankAfter, rfl⟩ := exists_blank_of_skipSpace comma
        obtain ⟨⟨others, left⟩, readOthers, ended⟩ := Option.bind_eq_some_iff.mp behind
        obtain ⟨more, spelledOthers, rfl⟩ := fields _ _ _ readOthers
        obtain ⟨rfl, rfl⟩ := Prod.mk.inj (Option.some.inj ended)
        exact ⟨_, .cons spelledName spelled blankAfter spelledOthers, by simp⟩
      · cases behind
    · cases behindName
  · cases h

/-- The three readers call each other, so that they are right for every amount of fuel together. -/
theorem reads (fuel : Nat) : ReadsValues fuel ∧ ReadsItems fuel ∧ ReadsFields fuel := by
  induction fuel with
  | zero =>
    refine ⟨?_, ?_, ?_⟩ <;>
    · intro cs v rest h
      cases h
  | succ fuel ih =>
    obtain ⟨values, items, fields⟩ := ih
    exact ⟨.succ items fields, .succ values items, .succ values fields⟩

/-- The texts of a value are those that are read as it. -/
theorem read?_eq_some_iff {s : String} {v : Json} : read? s = some v ↔ IsText v s := by
  refine ⟨fun h => ?_, read?_of_isText⟩
  rw [read?, readChars?] at h
  split at h
  · next read =>
    split_ifs at h with ended
    obtain rfl := Option.some.inj h
    obtain ⟨gap, text, blank, spelled, split_s⟩ := (reads _).1 _ _ _ read
    refine ⟨gap, text, _, blank, spelled, ?_, split_s⟩
    exact List.dropWhile_eq_nil_iff.mp (List.isEmpty_iff.mp ended)
  · cases h

/-! ### Deciding what a text is -/

mutual
/-- Two values are the same, written with the same digits, units and parts. -/
def isSame : Json → Json → Bool
  | .null, .null => true
  | .bool b, .bool b' => b = b'
  | .number n, .number n' => n = n'
  | .string units, .string units' => units = units'
  | .array items, .array items' => areSame items items'
  | .object fields, .object fields' => fieldsAreSame fields fields'
  | _, _ => false

/-- Two lists have the same values. -/
def areSame : List Json → List Json → Bool
  | [], [] => true
  | v :: items, w :: items' => v.isSame w && areSame items items'
  | _, _ => false

/-- Two lists have the same fields, names and values. -/
def fieldsAreSame : List (List CodeUnit × Json) → List (List CodeUnit × Json) → Bool
  | [], [] => true
  | (name, v) :: fields, (name', w) :: fields' =>
    name = name' && v.isSame w && fieldsAreSame fields fields'
  | _, _ => false
end

mutual
theorem isSame_iff {v w : Json} : v.isSame w ↔ v = w := by
  cases v <;> cases w <;> simp [isSame, areSame_iff, fieldsAreSame_iff]

theorem areSame_iff {items items' : List Json} : areSame items items' ↔ items = items' := by
  cases items <;> cases items' <;> simp [areSame, isSame_iff, areSame_iff]

theorem fieldsAreSame_iff {fields fields' : List (List CodeUnit × Json)} :
    fieldsAreSame fields fields' ↔ fields = fields' := by
  rcases fields with _ | ⟨⟨name, v⟩, fields⟩ <;> rcases fields' with _ | ⟨⟨name', w⟩, fields'⟩ <;>
    simp [fieldsAreSame, isSame_iff, fieldsAreSame_iff]
end

instance : DecidableEq Json := fun v w => decidable_of_iff (v.isSame w) isSame_iff

instance (v : Json) (s : String) : Decidable (IsText v s) := decidable_of_iff _ read?_eq_some_iff

end CrossBook.Json
