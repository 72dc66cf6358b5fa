import CrossBook.Decimal.Text
import CrossBook.Decimal.Binary64

/-!
# JSON values

Values as they are written: a number keeps its digits and a string its escaped code units, so that
what a number or a string stands for, and whether it stands for anything, is asked later.

## Main definitions

* `Json` — values
* `Json.Numeral` — a number as written
* `Json.CodeUnit` — a character of a string, or half of one
* `Json.Numeral.integer?`, `Json.Numeral.float?` — what a number stands for
* `Json.textOfUnits?` — what a string stands for
* `Json.isSound` — every number and string stands for something, within a depth
-/

namespace CrossBook

namespace Json

/-- A number as written: its whole digits, the digits after a point, an exponent with its sign. -/
structure Numeral where
  negative : Bool
  whole : List Char
  fraction : Option (List Char)
  exponent : Option (Bool × List Char)
deriving DecidableEq

/-- One unit of a string: a character, or half of a character given by its code. -/
inductive CodeUnit where
  | char (c : Char)
  | surrogate (code : Nat)
deriving DecidableEq

end Json

/-- A JSON value as written. -/
inductive Json where
  | null
  | bool (b : Bool)
  | number (n : Json.Numeral)
  | string (units : List Json.CodeUnit)
  | array (items : List Json)
  | object (fields : List (List Json.CodeUnit × Json))

namespace Json

open Text

/-! ### Strings -/

/-- The character two halves stand for. -/
def joinSurrogates? (high low : Nat) : Option Char :=
  if 0xD800 ≤ high ∧ high < 0xDC00 ∧ 0xDC00 ≤ low ∧ low < 0xE000 then
    some (Char.ofNat (0x10000 + (high - 0xD800) * 0x400 + (low - 0xDC00)))
  else none

/-- The characters a string stands for; none when a half stands alone. -/
def charsOfUnits? : List CodeUnit → Option (List Char)
  | [] => some []
  | .char c :: rest => (charsOfUnits? rest).map (c :: ·)
  | .surrogate high :: .surrogate low :: rest =>
    match joinSurrogates? high low with
    | some c => (charsOfUnits? rest).map (c :: ·)
    | none => none
  | .surrogate _ :: _ => none

/-- The text a string stands for; none when half of a character stands alone. -/
def textOfUnits? (units : List CodeUnit) : Option String :=
  (charsOfUnits? units).map String.ofList

/-- The units of a text. -/
def unitsOfText (s : String) : List CodeUnit := s.toList.map .char

/-! ### Numbers -/

/-- The largest unsigned sixty-four bit word. -/
def maxWord : Nat := twoTo 64 - 1

/-- The whole number a numeral stands for: no point, no exponent, within the unsigned words, or
the signed ones when it is negative. A negative zero is no whole number. -/
def Numeral.integer? (n : Numeral) : Option Int :=
  match n.fraction, n.exponent with
  | none, none =>
    let m := ofDigits n.whole
    if n.negative then (if 0 < m ∧ m ≤ twoTo 63 then some (-(m : Int)) else none)
    else (if m ≤ maxWord then some (m : Int) else none)
  | _, _ => none

/-- Digits appended to a significand until the next would leave sixty-four bits, and how many. -/
def takeDigits : Nat → List Char → Nat × Nat
  | m, [] => (m, 0)
  | m, c :: rest =>
    let next := m * 10 + digitValue c
    if next ≤ maxWord then
      let (m, k) := takeDigits next rest
      (m, k + 1)
    else (m, 0)

/-- The double precision magnitude a numeral stands for. The significand is cut at sixty-four bits,
whole digits beyond count as zeros and digits after the point beyond are dropped; none when the
magnitude is too large. -/
def Numeral.float? (n : Numeral) : Option Binary64 :=
  let (m, taken) := takeDigits 0 n.whole
  let (m, places) := takeDigits m (n.fraction.getD [])
  let start : Int := (n.whole.length - taken : Nat) - (places : Int)
  match n.exponent with
  | none => Binary64.scientific? m start
  | some (negative, cs) =>
    let e := ofDigits cs
    if twoTo 31 ≤ e then (if m = 0 ∨ negative then some Binary64.zero else none)
    else Binary64.scientific? m (start + if negative then -(e : Int) else e)

/-- The decimal a numeral stands for: a whole number exactly, any other through the shortest digits
of its double precision magnitude. -/
def Numeral.decimal? (n : Numeral) : Option Decimal :=
  match n.integer? with
  | some i => Decimal.ofParts? i 0
  | none => do
    let x ← n.float?
    Decimal.ofChars? (if n.negative then '-' :: x.chars else x.chars)

/-- A whole number as written. -/
def Numeral.ofInt (i : Int) : Numeral := ⟨decide (i < 0), digits i.natAbs, none, none⟩

/-! ### Building and taking apart -/

/-- A string value. -/
def ofText (s : String) : Json := .string (unitsOfText s)

/-- A whole number value. -/
def ofInt (i : Int) : Json := .number (Numeral.ofInt i)

/-- A natural number value. -/
def ofNat (n : Nat) : Json := ofInt n

/-- An object with these fields in this order. -/
def ofFields (fields : List (String × Json)) : Json :=
  .object (fields.map fun f => (unitsOfText f.1, f.2))

/-- The text of a string value. -/
def text? : Json → Option String
  | .string units => textOfUnits? units
  | _ => none

/-- The whole number of a number value. -/
def integer? : Json → Option Int
  | .number n => n.integer?
  | _ => none

/-- The decimal of a number, or of a string that holds a numeral. -/
def decimal? : Json → Option Decimal
  | .number n => n.decimal?
  | .string units => (charsOfUnits? units).bind Decimal.ofChars?
  | _ => none

/-- The values of the fields with this name. -/
def fieldsNamed (name : String) (fields : List (List CodeUnit × Json)) : List Json :=
  (fields.filter fun f => textOfUnits? f.1 = some name).map (·.2)

mutual
/-- Every number and every string stands for something, and no list or object lies deeper than
`depth`. -/
def isSound (depth : Nat) : Json → Bool
  | .null => true
  | .bool _ => true
  | .number n => n.integer?.isSome || n.float?.isSome
  | .string units => (charsOfUnits? units).isSome
  | .array items => 0 < depth && areSound (depth - 1) items
  | .object fields => 0 < depth && fieldsAreSound (depth - 1) fields

/-- Every value of a list is sound. -/
def areSound (depth : Nat) : List Json → Bool
  | [] => true
  | v :: rest => v.isSound depth && areSound depth rest

/-- Every name and every value of an object is sound. -/
def fieldsAreSound (depth : Nat) : List (List CodeUnit × Json) → Bool
  | [] => true
  | (name, v) :: rest =>
    (charsOfUnits? name).isSome && v.isSound depth && fieldsAreSound depth rest
end

end Json

end CrossBook
