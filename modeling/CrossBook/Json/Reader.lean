import CrossBook.Json.Basic

/-!
# Reading JSON

A strict reader: no comments, no trailing commas, no leading zeros, no control characters inside
strings, and nothing but white space after the value.

## Main definitions

* `Json.readString?`, `Json.readNumeral?`, `Json.readValue?` — a value at the front of a text
* `Json.read?` — a text that is one value
-/

namespace CrossBook.Json

open Text

/-- The four characters that may stand between tokens. -/
def isSpace (c : Char) : Bool := c = ' ' || c = '\n' || c = '\t' || c = '\r'

/-- The text from its first character that is no white space. -/
def skipSpace (cs : List Char) : List Char := cs.dropWhile isSpace

/-- The unit four hexadecimal digits stand for. -/
def hexUnit? (a b c d : Char) : Option CodeUnit := do
  let high := (← hexValue? a) * 16 + (← hexValue? b)
  let code := (high * 16 + (← hexValue? c)) * 16 + (← hexValue? d)
  some (if 0xD800 ≤ code ∧ code < 0xE000 then .surrogate code else .char (Char.ofNat code))

/-- The character a single escaped letter stands for. -/
def escaped? (c : Char) : Option Char :=
  if c = '"' then some '"'
  else if c = '\\' then some '\\'
  else if c = '/' then some '/'
  else if c = 'b' then some '\x08'
  else if c = 'f' then some '\x0c'
  else if c = 'n' then some '\n'
  else if c = 'r' then some '\r'
  else if c = 't' then some '\t'
  else none

/-- The units of a string up to its closing quote, and the text behind it. -/
def readString? : List Char → Option (List CodeUnit × List Char)
  | [] => none
  | '"' :: rest => some ([], rest)
  | '\\' :: 'u' :: a :: b :: c :: d :: rest => do
    let unit ← hexUnit? a b c d
    let (units, rest) ← readString? rest
    some (unit :: units, rest)
  | '\\' :: c :: rest => do
    let c ← escaped? c
    let (units, rest) ← readString? rest
    some (.char c :: units, rest)
  | c :: rest =>
    if c = '\\' ∨ c.toNat < 0x20 then none
    else do
      let (units, rest) ← readString? rest
      some (.char c :: units, rest)

/-- The digits at the front of a text, at least one. -/
def readDigits? (cs : List Char) : Option (List Char × List Char) :=
  match cs.takeWhile isDigit with
  | [] => none
  | ds => some (ds, cs.dropWhile isDigit)

/-- The whole digits of a number: a zero alone, or digits that start with none. -/
def readWhole? : List Char → Option (List Char × List Char)
  | '0' :: rest =>
    match rest with
    | c :: _ => if isDigit c then none else some (['0'], rest)
    | [] => some (['0'], [])
  | cs => readDigits? cs

/-- The digits after a point, when there is one. -/
def readFraction? : List Char → Option (Option (List Char) × List Char)
  | '.' :: rest => (readDigits? rest).map fun p => (some p.1, p.2)
  | cs => some (none, cs)

/-- The exponent after its mark, when there is one. -/
def readExponent? : List Char → Option (Option (Bool × List Char) × List Char)
  | [] => some (none, [])
  | c :: rest =>
    if c = 'e' ∨ c = 'E' then
      match rest with
      | '-' :: rest => (readDigits? rest).map fun p => (some (true, p.1), p.2)
      | '+' :: rest => (readDigits? rest).map fun p => (some (false, p.1), p.2)
      | rest => (readDigits? rest).map fun p => (some (false, p.1), p.2)
    else some (none, c :: rest)

/-- A number without its sign at the front of a text. -/
def readUnsigned? (negative : Bool) (cs : List Char) : Option (Numeral × List Char) := do
  let (whole, rest) ← readWhole? cs
  let (fraction, rest) ← readFraction? rest
  let (exponent, rest) ← readExponent? rest
  some (⟨negative, whole, fraction, exponent⟩, rest)

/-- A number at the front of a text. -/
def readNumeral? : List Char → Option (Numeral × List Char)
  | '-' :: rest => readUnsigned? true rest
  | cs => readUnsigned? false cs

/-- The text behind the given characters, when it starts with them. -/
def behind? : List Char → List Char → Option (List Char)
  | [], cs => some cs
  | _ :: _, [] => none
  | w :: word, c :: cs => if w = c then behind? word cs else none

mutual
/-- A value at the front of a text, at most `fuel` tokens deep and long. -/
def readValue? : Nat → List Char → Option (Json × List Char)
  | 0, _ => none
  | fuel + 1, cs =>
    match skipSpace cs with
    | [] => none
    | '"' :: rest => (readString? rest).map fun p => (.string p.1, p.2)
    | '[' :: rest =>
      match skipSpace rest with
      | ']' :: rest => some (.array [], rest)
      | rest => (readItems? fuel rest).map fun p => (.array p.1, p.2)
    | '\x7b' :: rest =>
      match skipSpace rest with
      | '\x7d' :: rest => some (.object [], rest)
      | rest => (readFields? fuel rest).map fun p => (.object p.1, p.2)
    | 'n' :: rest => (behind? ['u', 'l', 'l'] rest).map fun rest => (.null, rest)
    | 't' :: rest => (behind? ['r', 'u', 'e'] rest).map fun rest => (.bool true, rest)
    | 'f' :: rest => (behind? ['a', 'l', 's', 'e'] rest).map fun rest => (.bool false, rest)
    | rest => (readNumeral? rest).map fun p => (.number p.1, p.2)

/-- The values of a list up to its closing bracket. -/
def readItems? : Nat → List Char → Option (List Json × List Char)
  | 0, _ => none
  | fuel + 1, cs => do
    let (v, rest) ← readValue? fuel cs
    match skipSpace rest with
    | ']' :: rest => some ([v], rest)
    | ',' :: rest =>
      let (items, rest) ← readItems? fuel rest
      some (v :: items, rest)
    | _ => none

/-- The fields of an object up to its closing brace. -/
def readFields? : Nat → List Char → Option (List (List CodeUnit × Json) × List Char)
  | 0, _ => none
  | fuel + 1, cs =>
    match skipSpace cs with
    | '"' :: rest => do
      let (name, rest) ← readString? rest
      match skipSpace rest with
      | ':' :: rest =>
        let (v, rest) ← readValue? fuel rest
        match skipSpace rest with
        | '\x7d' :: rest => some ([(name, v)], rest)
        | ',' :: rest =>
          let (fields, rest) ← readFields? fuel rest
          some ((name, v) :: fields, rest)
        | _ => none
      | _ => none
    | _ => none
end

/-- The value a text is, with white space around it. Every token takes a character, so twice the
length bounds the steps. -/
def readChars? (cs : List Char) : Option Json :=
  match readValue? (2 * cs.length + 1) cs with
  | some (v, rest) => if (skipSpace rest).isEmpty then some v else none
  | none => none

/-- The value a text is, with white space around it. -/
def read? (s : String) : Option Json := readChars? s.toList

end CrossBook.Json
