import CrossBook.Json.Reader

/-!
# How a value may be written

One value has many texts: white space between tokens, characters of strings plain or escaped,
exponents with either mark. A spelling is a text of a value without white space around it; what it
leaves open is all that reading forgets.

## Main definitions

* `Json.IsBlank` — white space between tokens
* `Json.StringSpelling`, `Json.NumeralSpelling` — the characters of strings and numbers
* `Json.Spelling` — a value as text
* `Json.IsText` — a value as a whole text, with white space around it
-/

namespace CrossBook.Json

open Text

/-- White space between tokens, of any length. -/
def IsBlank (cs : List Char) : Prop := ∀ c ∈ cs, isSpace c

instance (cs : List Char) : Decidable (IsBlank cs) := inferInstanceAs (Decidable (∀ c ∈ cs, _))

/-! ### Strings -/

/-- A unit of a string: a character as it is, a letter behind a backslash, or its code. -/
inductive UnitSpelling : CodeUnit → List Char → Prop
  | plain {c : Char} (quote : c ≠ '"') (backslash : c ≠ '\\') (printed : 0x20 ≤ c.toNat) :
      UnitSpelling (.char c) [c]
  | escaped {e c : Char} (h : escaped? e = some c) : UnitSpelling (.char c) ['\\', e]
  | code {a b c d : Char} {u : CodeUnit} (h : hexUnit? a b c d = some u) :
      UnitSpelling u ['\\', 'u', a, b, c, d]

/-- A string up to its closing quote, which it includes. -/
inductive StringSpelling : List CodeUnit → List Char → Prop
  | closed : StringSpelling [] ['"']
  | cons {u : CodeUnit} {units : List CodeUnit} {cs rest : List Char} (first : UnitSpelling u cs)
      (others : StringSpelling units rest) : StringSpelling (u :: units) (cs ++ rest)

/-! ### Numbers -/

/-- Digits, at least one. -/
def IsDigits (ds : List Char) : Prop := ds ≠ [] ∧ ∀ c ∈ ds, isDigit c

/-- The whole digits of a number: a zero alone, or digits that do not start with one. -/
def IsWholePart (ds : List Char) : Prop := IsDigits ds ∧ (ds.head? = some '0' → ds = ['0'])

/-- The digits after the point, or none. -/
inductive FractionSpelling : Option (List Char) → List Char → Prop
  | absent : FractionSpelling none []
  | present {ds : List Char} (digits : IsDigits ds) : FractionSpelling (some ds) ('.' :: ds)

/-- The sign of an exponent; a plus may be left out. -/
inductive SignSpelling : Bool → List Char → Prop
  | unsigned : SignSpelling false []
  | plus : SignSpelling false ['+']
  | minus : SignSpelling true ['-']

/-- The exponent behind its mark, or none. -/
inductive ExponentSpelling : Option (Bool × List Char) → List Char → Prop
  | absent : ExponentSpelling none []
  | present {mark : Char} {negative : Bool} {sign ds : List Char} (marked : mark = 'e' ∨ mark = 'E')
      (signed : SignSpelling negative sign) (digits : IsDigits ds) :
      ExponentSpelling (some (negative, ds)) (mark :: (sign ++ ds))

/-- A number: an optional sign, its whole digits, and what may follow them. -/
inductive NumeralSpelling : Numeral → List Char → Prop
  | mk {negative : Bool} {whole : List Char} {fraction : Option (List Char)}
      {exponent : Option (Bool × List Char)} {fs es : List Char} (digits : IsWholePart whole)
      (places : FractionSpelling fraction fs) (power : ExponentSpelling exponent es) :
      NumeralSpelling ⟨negative, whole, fraction, exponent⟩
        ((if negative then ['-'] else []) ++ (whole ++ (fs ++ es)))

/-! ### Values -/

/-- The name of a field up to where its value starts. -/
inductive NameSpelling : List CodeUnit → List Char → Prop
  | mk {name : List CodeUnit} {before cs colon after : List Char} (blankBefore : IsBlank before)
      (named : StringSpelling name cs) (blankColon : IsBlank colon) (blankAfter : IsBlank after) :
      NameSpelling name (before ++ '"' :: (cs ++ (colon ++ ':' :: after)))

mutual
/-- A value, without white space around it. -/
inductive Spelling : Json → List Char → Prop
  | null : Spelling .null ['n', 'u', 'l', 'l']
  | true : Spelling (.bool true) ['t', 'r', 'u', 'e']
  | false : Spelling (.bool false) ['f', 'a', 'l', 's', 'e']
  | number {n : Numeral} {cs : List Char} (h : NumeralSpelling n cs) : Spelling (.number n) cs
  | string {units : List CodeUnit} {cs : List Char} (h : StringSpelling units cs) :
      Spelling (.string units) ('"' :: cs)
  | emptyArray {gap : List Char} (blank : IsBlank gap) :
      Spelling (.array []) ('[' :: (gap ++ [']']))
  | array {items : List Json} {cs : List Char} (h : ItemsSpelling items cs) :
      Spelling (.array items) ('[' :: cs)
  | emptyObject {gap : List Char} (blank : IsBlank gap) :
      Spelling (.object []) ('\x7b' :: (gap ++ ['\x7d']))
  | object {fields : List (List CodeUnit × Json)} {cs : List Char} (h : FieldsSpelling fields cs) :
      Spelling (.object fields) ('\x7b' :: cs)

/-- The values of a list up to its closing bracket, which they include. -/
inductive ItemsSpelling : List Json → List Char → Prop
  | last {v : Json} {before cs after : List Char} (blankBefore : IsBlank before)
      (value : Spelling v cs) (blankAfter : IsBlank after) :
      ItemsSpelling [v] (before ++ (cs ++ (after ++ [']'])))
  | cons {v : Json} {items : List Json} {before cs after rest : List Char}
      (blankBefore : IsBlank before) (value : Spelling v cs) (blankAfter : IsBlank after)
      (others : ItemsSpelling items rest) :
      ItemsSpelling (v :: items) (before ++ (cs ++ (after ++ ',' :: rest)))

/-- The fields of an object up to its closing brace, which they include. -/
inductive FieldsSpelling : List (List CodeUnit × Json) → List Char → Prop
  | last {name : List CodeUnit} {v : Json} {ns cs after : List Char} (named : NameSpelling name ns)
      (value : Spelling v cs) (blankAfter : IsBlank after) :
      FieldsSpelling [(name, v)] (ns ++ (cs ++ (after ++ ['\x7d'])))
  | cons {name : List CodeUnit} {v : Json} {fields : List (List CodeUnit × Json)}
      {ns cs after rest : List Char} (named : NameSpelling name ns) (value : Spelling v cs)
      (blankAfter : IsBlank after) (others : FieldsSpelling fields rest) :
      FieldsSpelling ((name, v) :: fields) (ns ++ (cs ++ (after ++ ',' :: rest)))
end

/-- A text that is one value, with white space around it. -/
def IsText (v : Json) (s : String) : Prop :=
  ∃ before cs after, IsBlank before ∧ Spelling v cs ∧ IsBlank after ∧
    s.toList = before ++ (cs ++ after)

end CrossBook.Json
