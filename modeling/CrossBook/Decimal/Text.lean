import CrossBook.Decimal.Basic
import CrossBook.Text.Digits

/-!
# Decimal text

Reading and writing decimals. A numeral is an optional sign, digits with at most one point, and
separators `_` after the first digit. Digits beyond the ninety-six bit coefficient or the
twenty-eighth place round it by the first of them alone: five and more round up. A text that is no
numeral may have an exponent after an `e`.

## Main definitions

* `Decimal.ofChars?`, `Decimal.ofText?` — reading
* `Decimal.text` — writing with every place of the scale
* `Decimal.plainText` — writing without trailing zeros
-/

namespace CrossBook.Decimal

open CrossBook.Text

/-! ### Reading -/

/-- Characters that may follow the place that is rounded to. -/
def isIgnored (c : Char) : Bool := isDigit c || c = '_'

/-- One more than `m`, or, where that is no coefficient, a place less. -/
def carry? (m places : Nat) : Option (Nat × Nat) :=
  if m + 1 ≤ maxCoefficient then some (m + 1, places)
  else match places with
    | 0 => none
    | p + 1 => some ((m + 5) / 10, p)

/-- The coefficient and the places of a numeral whose next digit `d` does not fit. -/
def roundAt? (m places d : Nat) (rest : List Char) : Option (Nat × Nat) :=
  if rest.all isIgnored then
    if 5 ≤ d then carry? m places else some (m, places)
  else none

/-- Below this coefficient a separator at the place that is rounded to counts as a zero; from it on
the separator is passed over. -/
def separatorBound : Nat := 18446744073709549060

/-- The digits of a numeral from `cs` on: `m` and `places` hold what was read, `pointed` whether
the point was, `started` whether a digit was. -/
def scanDigits? : List Char → (m places : Nat) → (pointed started : Bool) → Option (Nat × Nat)
  | [], m, places, _, started => if started then some (m, places) else none
  | c :: rest, m, places, pointed, started =>
    if isDigit c then
      let next := m * 10 + digitValue c
      if pointed then
        if places < maxScale ∧ next ≤ maxCoefficient then
          scanDigits? rest next (places + 1) true true
        else roundAt? m places (digitValue c) rest
      else if next ≤ maxCoefficient then scanDigits? rest next places false true
      else none
    else if c = '.' ∧ pointed = false then scanDigits? rest m places true started
    else if c = '_' ∧ started = true then
      if places = maxScale ∧ m < separatorBound then roundAt? m places 0 rest
      else scanDigits? rest m places pointed true
    else none

/-- A numeral: a sign, its coefficient and its places. -/
def scanNumeral? : List Char → Option (Int × Nat)
  | '-' :: rest => (scanDigits? rest 0 0 false false).map fun p => (-(p.1 : Int), p.2)
  | '+' :: rest => (scanDigits? rest 0 0 false false).map fun p => ((p.1 : Int), p.2)
  | cs => (scanDigits? cs 0 0 false false).map fun p => ((p.1 : Int), p.2)

/-- The decimal a numeral stands for, its scale the number of places read. No zero is negative. -/
def ofNumeral? (cs : List Char) : Option Decimal := (scanNumeral? cs).bind fun p => ofParts? p.1 p.2

/-- An exponent: its sign and its magnitude. Either sign may be left out; a plus may follow a
minus. -/
def scanExponent? (cs : List Char) : Option (Bool × Nat) :=
  let (negative, cs) := match cs with
    | '-' :: rest => (true, rest)
    | cs => (false, cs)
  let cs := match cs with
    | '+' :: rest => rest
    | cs => cs
  if cs.isEmpty || !cs.all isDigit then none else some (negative, ofDigits cs)

/-- The decimal moved `x` places down; places beyond the twenty-eighth are rounded away, a half
away from zero. What is rounded to zero keeps its sign. -/
def scaleDown? (d : Decimal) (x : Nat) : Option Decimal :=
  if maxScale < x then none
  else if d.scale + x ≤ maxScale then ofSigned? d.isNegative d.magnitude (d.scale + x)
  else
    let unit := tenTo (d.scale + x - maxScale)
    ofSigned? d.isNegative ((2 * d.magnitude + unit) / (2 * unit)) maxScale

/-- The decimal moved `x` places up. -/
def scaleUp? (d : Decimal) (x : Nat) : Option Decimal :=
  if x ≤ d.scale then ofSigned? d.isNegative d.magnitude (d.scale - x)
  else if maxScale < x then none
  else ofSigned? d.isNegative (d.magnitude * tenTo (x - d.scale)) 0

/-- A numeral, an `e` and an exponent. -/
def ofScientific? (cs : List Char) : Option Decimal :=
  let isMark (c : Char) : Bool := c = 'e' || c = 'E'
  match cs.dropWhile fun c => !isMark c with
  | [] => none
  | _ :: tail => do
    let d ← ofNumeral? (cs.takeWhile fun c => !isMark c)
    let (negative, x) ← scanExponent? tail
    if negative then scaleDown? d x else scaleUp? d x

/-- The decimal a text stands for: a numeral, or a numeral with an exponent. -/
def ofChars? (cs : List Char) : Option Decimal :=
  match ofNumeral? cs with
  | some d => some d
  | none => ofScientific? cs

/-- The decimal a text stands for. -/
def ofText? (s : String) : Option Decimal := ofChars? s.toList

/-! ### Writing -/

/-- A magnitude with `places` places after the point, and no point without places. -/
def magnitudeChars (m places : Nat) : List Char :=
  if places = 0 then digits m
  else digits (m / tenTo places) ++ '.' :: padZeros places (digits (m % tenTo places))

/-- The value with every place of its scale. -/
def chars (d : Decimal) : List Char :=
  let body := magnitudeChars d.magnitude d.scale
  if d.isNegative then '-' :: body else body

/-- The value with every place of its scale. -/
def text (d : Decimal) : String := String.ofList d.chars

/-- Magnitude and scale without trailing zeros among the places. -/
def stripZeros (m : Nat) : Nat → Nat × Nat
  | 0 => (m, 0)
  | s + 1 => if m % 10 = 0 then stripZeros (m / 10) s else (m, s + 1)

/-- The value with as few places as it needs; zero has no sign. -/
def plainText (d : Decimal) : String :=
  let (m, s) := stripZeros d.magnitude d.scale
  let body := magnitudeChars m s
  String.ofList (if d.isNegative ∧ m ≠ 0 then '-' :: body else body)

example : (ofText? "-12.50").map text = some "-12.50" := by cbv

example : (ofText? "-12.50").map plainText = some "-12.5" := by cbv

example : (ofText? "1e-+1").map text = some "0.1" := by cbv

example : (ofText? "-0.0").map text = some "0.0" := by cbv

example : ofText? "." = none := by cbv

end CrossBook.Decimal
