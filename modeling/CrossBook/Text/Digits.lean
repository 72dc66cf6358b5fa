/-!
# Digits

Whole numbers written with the ASCII digits, most significant first, and read back.

## Main definitions

* `Text.digits` — the digits of a natural number, without leading zeros
* `Text.ofDigits` — the number a list of digits stands for
* `Text.writeInt` — a whole number with its sign
* `Text.hexValue?` — what a hexadecimal digit stands for
-/

namespace CrossBook.Text

/-- An ASCII digit. -/
def isDigit (c : Char) : Bool := 48 ≤ c.toNat && c.toNat ≤ 57

/-- What one digit stands for. -/
def digitValue (c : Char) : Nat := c.toNat - 48

/-- The digit for a number below ten. -/
def digitChar (n : Nat) : Char := Char.ofNat (48 + n % 10)

/-- The digits of a number, without leading zeros; zero has one digit. -/
def digits (n : Nat) : List Char :=
  if n < 10 then [digitChar n] else digits (n / 10) ++ [digitChar n]

/-- The number whose digits continue those of `n`. -/
def ofDigitsFrom (n : Nat) (cs : List Char) : Nat := cs.foldl (fun n c => n * 10 + digitValue c) n

/-- The number a list of digits stands for. -/
def ofDigits (cs : List Char) : Nat := ofDigitsFrom 0 cs

/-- A whole number, with a sign when it is negative. -/
def intChars (n : Int) : List Char := if n < 0 then '-' :: digits n.natAbs else digits n.natAbs

/-- A whole number as text, with a sign when it is negative. -/
def writeInt (n : Int) : String := String.ofList (intChars n)

/-- A natural number as text. -/
def writeNat (n : Nat) : String := String.ofList (digits n)

/-- What a hexadecimal digit stands for. -/
def hexValue? (c : Char) : Option Nat :=
  if isDigit c then some (digitValue c)
  else if 'a' ≤ c ∧ c ≤ 'f' then some (c.toNat - 87)
  else if 'A' ≤ c ∧ c ≤ 'F' then some (c.toNat - 55)
  else none

/-- Digits with zeros in front, at least `width` of them. -/
def padZeros (width : Nat) (cs : List Char) : List Char :=
  List.replicate (width - cs.length) '0' ++ cs

end CrossBook.Text
