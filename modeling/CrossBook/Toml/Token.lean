import CrossBook.Toml.Basic
import CrossBook.Text.Digits

/-!
# TOML tokens

Blanks, comments, keys, strings, numbers and moments at the front of a text.

## Main definitions

* `Toml.skipBlanks`, `Toml.skipLine?`, `Toml.skipGap?` — what stands between tokens
* `Toml.readPath?` — a key, with dots
* `Toml.readString?` — the four kinds of strings
* `Toml.readNumber?` — integers and floats
* `Toml.readMoment?` — dates and times
-/

namespace CrossBook.Toml

open Text

/-! ### Between tokens -/

/-- A space or a tab. -/
def isBlank (c : Char) : Bool := c = ' ' || c = '\t'

/-- A character beyond ASCII. -/
def isForeign (c : Char) : Bool := 0x80 ≤ c.toNat

/-- A character a comment may hold. -/
def inComment (c : Char) : Bool := c = '\t' || (0x20 ≤ c.toNat && c.toNat ≤ 0x7E) || isForeign c

/-- The text from its first character that is no blank. -/
def skipBlanks (cs : List Char) : List Char := cs.dropWhile isBlank

/-- The text behind a line end. -/
def lineEnd? : List Char → Option (List Char)
  | '\n' :: rest => some rest
  | '\r' :: '\n' :: rest => some rest
  | _ => none

/-- The text behind a comment, when there is one. -/
def skipComment : List Char → List Char
  | '#' :: rest => rest.dropWhile inComment
  | cs => cs

/-- The text behind the rest of a line, which holds blanks and a comment only. -/
def skipLine? (cs : List Char) : Option (List Char) :=
  match skipComment (skipBlanks cs) with
  | [] => some []
  | rest => lineEnd? rest

/-- The text behind blanks, line ends and comments. -/
def skipGap : Nat → List Char → List Char
  | 0, cs => cs
  | fuel + 1, cs =>
    match cs with
    | '#' :: rest => skipGap fuel (rest.dropWhile inComment)
    | c :: rest =>
      if isBlank c then skipGap fuel rest
      else match lineEnd? (c :: rest) with
        | some rest => skipGap fuel rest
        | none => c :: rest
    | [] => []

/-! ### Strings -/

/-- A character that stands for itself between double quotes. -/
def inBasic (c : Char) : Bool :=
  isBlank c || (0x21 ≤ c.toNat && c.toNat ≤ 0x7E && c ≠ '"' && c ≠ '\\') || isForeign c

/-- A character that stands for itself between single quotes. -/
def inLiteral (c : Char) : Bool :=
  c = '\t' || (0x20 ≤ c.toNat && c.toNat ≤ 0x7E && c ≠ '\'') || isForeign c

/-- The number some hexadecimal digits stand for. -/
def hexNumber? (n : Nat) : List Char → Option Nat
  | [] => some n
  | c :: rest => (hexValue? c).bind fun d => hexNumber? (n * 16 + d) rest

/-- The character with a code point, when there is one: surrogates have none. -/
def charOfCode? (n : Nat) : Option Char :=
  if n < 0xD800 ∨ (0xDFFF < n ∧ n < 0x110000) then some (Char.ofNat n) else none

/-- The character hexadecimal digits stand for. -/
def hexChar? (ds : List Char) : Option Char := (hexNumber? 0 ds).bind charOfCode?

/-- The character an escaped letter stands for. -/
def escaped? (c : Char) : Option Char :=
  if c = 'b' then some '\x08'
  else if c = 't' then some '\t'
  else if c = 'n' then some '\n'
  else if c = 'f' then some '\x0c'
  else if c = 'r' then some '\r'
  else if c = '"' then some '"'
  else if c = '\\' then some '\\'
  else none

/-- A character in front of what was read. -/
def consTo (c : Char) (p : Option (List Char × List Char)) : Option (List Char × List Char) :=
  p.map fun p => (c :: p.1, p.2)

/-- A string up to its double quote. -/
def readBasic? : List Char → Option (List Char × List Char)
  | [] => none
  | '"' :: rest => some ([], rest)
  | '\\' :: 'u' :: a :: b :: c :: d :: rest =>
    (hexChar? [a, b, c, d]).bind fun x => consTo x (readBasic? rest)
  | '\\' :: 'U' :: a :: b :: c :: d :: e :: f :: g :: h :: rest =>
    (hexChar? [a, b, c, d, e, f, g, h]).bind fun x => consTo x (readBasic? rest)
  | '\\' :: c :: rest => (escaped? c).bind fun x => consTo x (readBasic? rest)
  | c :: rest => if inBasic c then consTo c (readBasic? rest) else none

/-- A string up to its single quote. -/
def readLiteral? : List Char → Option (List Char × List Char)
  | [] => none
  | '\'' :: rest => some ([], rest)
  | c :: rest => if inLiteral c then consTo c (readLiteral? rest) else none

/-- Where a string over several lines stands: in its text, behind a backslash that ends a line, or
in the blanks that such a backslash removes. -/
inductive LineMode where
  | text
  | ending
  | trimming
deriving DecidableEq

/-- A string over several lines up to its three double quotes, with up to two more in front of
them. -/
def readLongBasic? : LineMode → List Char → Option (List Char × List Char)
  | _, [] => none
  | .ending, '\n' :: rest => readLongBasic? .trimming rest
  | .ending, '\r' :: '\n' :: rest => readLongBasic? .trimming rest
  | .ending, c :: rest => if isBlank c then readLongBasic? .ending rest else none
  | .text, '\n' :: rest => consTo '\n' (readLongBasic? .text rest)
  | .text, '\r' :: '\n' :: rest => consTo '\n' (readLongBasic? .text rest)
  | .trimming, '\n' :: rest => readLongBasic? .trimming rest
  | .trimming, '\r' :: '\n' :: rest => readLongBasic? .trimming rest
  | .trimming, ' ' :: rest => readLongBasic? .trimming rest
  | .trimming, '\t' :: rest => readLongBasic? .trimming rest
  | _, '"' :: '"' :: '"' :: '"' :: '"' :: rest => some (['"', '"'], rest)
  | _, '"' :: '"' :: '"' :: '"' :: rest => some (['"'], rest)
  | _, '"' :: '"' :: '"' :: rest => some ([], rest)
  | _, '"' :: rest => consTo '"' (readLongBasic? .text rest)
  | _, '\\' :: 'u' :: a :: b :: c :: d :: rest =>
    (hexChar? [a, b, c, d]).bind fun x => consTo x (readLongBasic? .text rest)
  | _, '\\' :: 'U' :: a :: b :: c :: d :: e :: f :: g :: h :: rest =>
    (hexChar? [a, b, c, d, e, f, g, h]).bind fun x => consTo x (readLongBasic? .text rest)
  | _, '\\' :: c :: rest =>
    if c = '\n' then readLongBasic? .trimming rest
    else if isBlank c ∨ c = '\r' then readLongBasic? .ending (c :: rest)
    else (escaped? c).bind fun x => consTo x (readLongBasic? .text rest)
  | _, c :: rest => if inBasic c then consTo c (readLongBasic? .text rest) else none

/-- A string over several lines up to its three single quotes, with up to two more in front of
them. -/
def readLongLiteral? : List Char → Option (List Char × List Char)
  | [] => none
  | '\n' :: rest => consTo '\n' (readLongLiteral? rest)
  | '\r' :: '\n' :: rest => consTo '\n' (readLongLiteral? rest)
  | '\'' :: '\'' :: '\'' :: '\'' :: '\'' :: rest => some (['\'', '\''], rest)
  | '\'' :: '\'' :: '\'' :: '\'' :: rest => some (['\''], rest)
  | '\'' :: '\'' :: '\'' :: rest => some ([], rest)
  | '\'' :: rest => consTo '\'' (readLongLiteral? rest)
  | c :: rest => if inLiteral c then consTo c (readLongLiteral? rest) else none

/-- The text behind a line end, when it starts with one. -/
def dropLineEnd (cs : List Char) : List Char := (lineEnd? cs).getD cs

/-- A string of any of the four kinds. -/
def readString? : List Char → Option (String × List Char)
  | '"' :: '"' :: '"' :: rest =>
    (readLongBasic? .text (dropLineEnd rest)).map fun p => (String.ofList p.1, p.2)
  | '\'' :: '\'' :: '\'' :: rest =>
    (readLongLiteral? (dropLineEnd rest)).map fun p => (String.ofList p.1, p.2)
  | '"' :: rest => (readBasic? rest).map fun p => (String.ofList p.1, p.2)
  | '\'' :: rest => (readLiteral? rest).map fun p => (String.ofList p.1, p.2)
  | _ => none

/-! ### Keys -/

/-- A character of a key without quotes. -/
def inBareKey (c : Char) : Bool :=
  isDigit c || ('a' ≤ c && c ≤ 'z') || ('A' ≤ c && c ≤ 'Z') || c = '_' || c = '-'

/-- One part of a key. -/
def readKey? : List Char → Option (String × List Char)
  | '"' :: rest => (readBasic? rest).map fun p => (String.ofList p.1, p.2)
  | '\'' :: rest => (readLiteral? rest).map fun p => (String.ofList p.1, p.2)
  | cs =>
    match cs.takeWhile inBareKey with
    | [] => none
    | ds => some (String.ofList ds, cs.dropWhile inBareKey)

/-- A key whose parts are joined by dots, with blanks around the parts. -/
def readPath? : Nat → List Char → Option (List String × List Char)
  | 0, _ => none
  | fuel + 1, cs => do
    let (key, rest) ← readKey? (skipBlanks cs)
    match skipBlanks rest with
    | '.' :: rest =>
      let (path, rest) ← readPath? fuel rest
      some (key :: path, rest)
    | rest => some ([key], rest)

/-! ### Numbers -/

/-- Digits of a kind, with single separators between them. -/
def readRun? (isOne : Char → Bool) : List Char → Option (List Char × List Char)
  | [] => none
  | c :: rest =>
    if isOne c then
      match rest with
      | [] => some ([c], [])
      | '_' :: d :: more =>
        if isOne d then consTo c (readRun? isOne (d :: more)) else some ([c], '_' :: d :: more)
      | d :: more =>
        if isOne d then consTo c (readRun? isOne (d :: more)) else some ([c], d :: more)
    else none

/-- Whole digits: a zero alone, or digits that do not start with one. -/
def readWhole? : List Char → Option (List Char × List Char)
  | '0' :: rest => some (['0'], rest)
  | cs => readRun? isDigit cs

/-- An integer within the signed sixty-four bit words. -/
def integerOf? (i : Int) : Option Toml :=
  if -twoTo 63 ≤ i ∧ i < twoTo 63 then some (.integer i) else none

/-- A number in another base. -/
def readRadix? (base : Nat) (isOne : Char → Bool) (cs : List Char) : Option (Toml × List Char) := do
  let (ds, rest) ← readRun? isOne cs
  let value := ds.foldl (fun n c => n * base + (hexValue? c).getD 0) 0
  let v ← integerOf? value
  some (v, rest)

/-- The digits behind a point, none without one. -/
def readFraction? : List Char → Option (List Char × List Char)
  | '.' :: rest => readRun? isDigit rest
  | cs => some ([], cs)

/-- The exponent behind its mark, none without one. -/
def readExponent? : List Char → Option (Option (Bool × List Char) × List Char)
  | [] => some (none, [])
  | c :: rest =>
    if c = 'e' ∨ c = 'E' then
      match rest with
      | '-' :: rest => (readRun? isDigit rest).map fun p => (some (true, p.1), p.2)
      | '+' :: rest => (readRun? isDigit rest).map fun p => (some (false, p.1), p.2)
      | rest => (readRun? isDigit rest).map fun p => (some (false, p.1), p.2)
    else some (none, c :: rest)

/-- The magnitude of `n · 10 ^ k`, none when it is too large. Exponents far outside the format are
not raised to. -/
def magnitude? (n : Nat) (k : Int) : Option Binary64 :=
  if n = 0 then some .zero
  else if 400 < k then none
  else if k + (digits n).length < -400 then some .zero
  else if 0 ≤ k then Binary64.nearest? (n * tenTo k.toNat) 1
  else Binary64.nearest? n (tenTo (-k).toNat)

/-- A decimal number behind its sign. Only a negative float may be infinitely large. -/
def readUnsigned? (negative : Bool) (cs : List Char) : Option (Toml × List Char) := do
  let (whole, rest) ← readWhole? cs
  let (fraction, rest) ← readFraction? rest
  let (exponent, rest) ← readExponent? rest
  if fraction.isEmpty ∧ exponent.isNone then
    let n : Int := ofDigits whole
    let v ← integerOf? (if negative then -n else n)
    some (v, rest)
  else
    let e : Int := match exponent with
      | some (true, ds) => -(ofDigits ds : Int)
      | some (false, ds) => ofDigits ds
      | none => 0
    let m := magnitude? (ofDigits (whole ++ fraction)) (e - fraction.length)
    if m.isNone ∧ ¬ negative then none else some (.float ⟨negative, m⟩, rest)

/-- A number behind its sign, an infinity, or no number. -/
def readSigned? (negative : Bool) : List Char → Option (Toml × List Char)
  | 'i' :: 'n' :: 'f' :: rest => some (.float ⟨negative, none⟩, rest)
  | 'n' :: 'a' :: 'n' :: rest => some (.float ⟨negative, none⟩, rest)
  | cs => readUnsigned? negative cs

/-- An integer or a float. -/
def readNumber? : List Char → Option (Toml × List Char)
  | '0' :: 'x' :: rest => readRadix? 16 (fun c => (hexValue? c).isSome) rest
  | '0' :: 'o' :: rest => readRadix? 8 (fun c => '0' ≤ c && c ≤ '7') rest
  | '0' :: 'b' :: rest => readRadix? 2 (fun c => c = '0' || c = '1') rest
  | '+' :: rest => readSigned? false rest
  | '-' :: rest => readSigned? true rest
  | cs => readSigned? false cs

/-! ### Dates and times -/

/-- Two digits, as a number within a range. -/
def readTwo? (lo hi : Nat) : List Char → Option (Nat × List Char)
  | a :: b :: rest =>
    if isDigit a ∧ isDigit b then
      let n := digitValue a * 10 + digitValue b
      if lo ≤ n ∧ n ≤ hi then some (n, rest) else none
    else none
  | _ => none

/-- The text behind a character, when it starts with it. -/
def behind? (c : Char) : List Char → Option (List Char)
  | d :: rest => if d = c then some rest else none
  | [] => none

/-- The days of a month. -/
def daysOf (year month : Nat) : Nat :=
  if month = 2 then
    if year % 4 = 0 ∧ (year % 100 ≠ 0 ∨ year % 400 = 0) then 29 else 28
  else if month = 4 ∨ month = 6 ∨ month = 9 ∨ month = 11 then 30 else 31

/-- A date. -/
def readDate? (cs : List Char) : Option (List Char) := do
  let (century, rest) ← readTwo? 0 99 cs
  let (year, rest) ← readTwo? 0 99 rest
  let (month, rest) ← readTwo? 1 12 (← behind? '-' rest)
  let (_, rest) ← readTwo? 1 (daysOf (century * 100 + year) month) (← behind? '-' rest)
  some rest

/-- A time of day. -/
def readTime? (cs : List Char) : Option (List Char) := do
  let (_, rest) ← readTwo? 0 23 cs
  let (_, rest) ← readTwo? 0 59 (← behind? ':' rest)
  let (_, rest) ← readTwo? 0 60 (← behind? ':' rest)
  match rest with
  | '.' :: c :: more => if isDigit c then some (more.dropWhile isDigit) else none
  | _ => some rest

/-- The text behind a distance from universal time, when there is one. -/
def readOffset? : List Char → Option (List Char)
  | 'Z' :: rest => some rest
  | 'z' :: rest => some rest
  | c :: rest =>
    if c = '+' ∨ c = '-' then do
      let (_, rest) ← readTwo? 0 23 rest
      let (_, rest) ← readTwo? 0 59 (← behind? ':' rest)
      some rest
    else some (c :: rest)
  | [] => some []

/-- The text behind a time of day that follows a date, when one does. -/
def readTimeOfDate? (cs : List Char) : Option (List Char) :=
  match cs with
  | c :: rest =>
    if c = 'T' ∨ c = 't' ∨ c = ' ' then
      match readTime? rest with
      | some rest => readOffset? rest
      | none => some cs
    else some cs
  | [] => some []

/-- A date, a time of day, or both. -/
def readMoment? (cs : List Char) : Option (List Char) :=
  match readDate? cs with
  | some rest => readTimeOfDate? rest
  | none => readTime? cs

end CrossBook.Toml
