import CrossBook.Json.Basic

/-!
# Writing JSON

Compact JSON: no white space, fields in their order, and in strings only the quote, the backslash
and the control characters escaped.

## Main definitions

* `Json.escape` — a string between quotes
* `Json.renderChars`, `Json.render` — a value as text
-/

namespace CrossBook.Json

open Text

/-- A hexadecimal digit in lower case. -/
def hexDigit (n : Nat) : Char :=
  if n % 16 < 10 then Char.ofNat (48 + n % 16) else Char.ofNat (87 + n % 16)

/-- A code below `2 ^ 16` as an escape. -/
def hexEscape (code : Nat) : List Char :=
  ['\\', 'u', hexDigit (code / 4096), hexDigit (code / 256), hexDigit (code / 16), hexDigit code]

/-- A character inside a string. -/
def escapeChar (c : Char) : List Char :=
  if c = '"' then ['\\', '"']
  else if c = '\\' then ['\\', '\\']
  else if c = '\n' then ['\\', 'n']
  else if c = '\r' then ['\\', 'r']
  else if c = '\t' then ['\\', 't']
  else if c = '\x08' then ['\\', 'b']
  else if c = '\x0c' then ['\\', 'f']
  else if c.toNat < 0x20 then hexEscape c.toNat
  else [c]

/-- A unit inside a string. -/
def escapeUnit : CodeUnit → List Char
  | .char c => escapeChar c
  | .surrogate code => hexEscape code

/-- A string between quotes. -/
def quote (units : List CodeUnit) : List Char := '"' :: units.flatMap escapeUnit ++ ['"']

/-- A number as it was written. -/
def numeralChars (n : Numeral) : List Char :=
  (if n.negative then ['-'] else []) ++ n.whole
    ++ (match n.fraction with
      | none => []
      | some ds => '.' :: ds)
    ++ (match n.exponent with
      | none => []
      | some (negative, ds) => 'e' :: if negative then '-' :: ds else ds)

mutual
/-- A value as text. -/
def renderChars : Json → List Char
  | .null => ['n', 'u', 'l', 'l']
  | .bool true => ['t', 'r', 'u', 'e']
  | .bool false => ['f', 'a', 'l', 's', 'e']
  | .number n => numeralChars n
  | .string units => quote units
  | .array [] => ['[', ']']
  | .array (v :: rest) => '[' :: renderChars v ++ renderItems rest
  | .object [] => ['\x7b', '\x7d']
  | .object ((name, v) :: rest) => '\x7b' :: quote name ++ ':' :: renderChars v ++ renderFields rest

/-- The values behind the first of a list, and its closing bracket. -/
def renderItems : List Json → List Char
  | [] => [']']
  | v :: rest => ',' :: renderChars v ++ renderItems rest

/-- The fields behind the first of an object, and its closing brace. -/
def renderFields : List (List CodeUnit × Json) → List Char
  | [] => ['\x7d']
  | (name, v) :: rest => ',' :: quote name ++ ':' :: renderChars v ++ renderFields rest
end

/-- A value as text. -/
def render (v : Json) : String := String.ofList v.renderChars

end CrossBook.Json
