import CrossBook.Table
import CrossBook.Text.Blank

/-!
# Files of variables

A file of variables gives values to names, one assignment a line. A line may go on behind a line
break that is quoted. Reading stops at the first line that is no assignment, and what was assigned
before it stays. A name that has a value already keeps it.

## Main definitions

* `Variables.Environment` — values by name
* `Variables.takeLine?` — the first line of a text
* `Variables.readValue?` — the value a text stands for
* `Variables.readAssignment?` — the assignment of a line
* `Variables.load?` — the environment after a file was read
-/

namespace CrossBook.Variables

open Text

/-- Values by name. -/
abbrev Environment := Table String String

/-! ### Lines -/

/-- How the next character of a line is looked at: in the open, right behind a blank, between
single or double quotes, or behind a backslash in one of these places. -/
inductive Quoting where
  | none
  | behindBlank
  | escaped
  | single
  | singleEscaped
  | double
  | doubleEscaped
deriving DecidableEq

/-- How the character behind one in the open is looked at. Only a first blank is noticed. -/
def Quoting.opened (c : Char) : Quoting :=
  if c = '\\' then .escaped else if c = '"' then .double else if c = '\'' then .single else .none

/-- How the character behind this one is looked at. -/
def Quoting.next : Quoting → Char → Quoting
  | .none, c => if isBlank c ∧ c ≠ '\n' ∧ c ≠ '\r' then .behindBlank else opened c
  | .behindBlank, c => opened c
  | .escaped, _ => .none
  | .single, c => if c = '\\' then .singleEscaped else if c = '\'' then .none else .single
  | .singleEscaped, _ => .single
  | .double, c => if c = '\\' then .doubleEscaped else if c = '"' then .none else .double
  | .doubleEscaped, _ => .double

/-- What is behind the next line break. -/
def behindBreak (cs : List Char) : List Char := (cs.dropWhile (· ≠ '\n')).drop 1

/-- The characters up to the end of a line, and what is behind it. A comment, which stands right
behind a blank, is left out; a text that ends otherwise than in the open has no line. -/
def takeLine? : Quoting → List Char → Option (List Char × List Char)
  | q, [] => if q = .none then some ([], []) else none
  | q, c :: rest =>
    if q = .behindBlank ∧ c = '#' then some ([], behindBreak rest)
    else
      let q := q.next c
      if c = '\n' ∧ q = .none then some ([], rest)
      else (takeLine? q rest).map fun p => (c :: p.1, p.2)

/-- The first line, up to its break, is a comment as a whole. -/
def isComment (cs : List Char) : Bool :=
  ((cs.takeWhile (· ≠ '\n')).dropWhile isBlank).head? = some '#'

/-! ### Values -/

/-- What a backslash and a character stand for. -/
def escaped? (c : Char) : Option Char :=
  if c = '\\' ∨ c = '\'' ∨ c = '"' ∨ c = '$' ∨ c = ' ' then some c
  else if c = 'n' then some '\n'
  else none

/-- The ranges of letters and digits that go on with the name behind a dollar sign. -/
def letterRanges : List (Nat × Nat) :=
  [(0x30, 0x39), (0x41, 0x5A), (0x61, 0x7A), (0xAA, 0xAA), (0xB2, 0xB3), (0xB5, 0xB5),
   (0xB9, 0xBA), (0xBC, 0xBE), (0xC0, 0xD6), (0xD8, 0xF6), (0xF8, 0x2C1), (0x370, 0x373),
   (0x386, 0x386), (0x388, 0x481), (0x48A, 0x559), (0x561, 0x587), (0x5D0, 0x5EA),
   (0x620, 0x64A), (0x660, 0x669), (0x904, 0x939), (0x1E00, 0x1FBC), (0x3041, 0x3096),
   (0x30A1, 0x30FA), (0x3400, 0x4DBF), (0x4E00, 0x9FFF), (0xAC00, 0xD7A3)]

/-- The character goes on with the name behind a dollar sign. -/
def isLetter (c : Char) : Bool := letterRanges.any fun r => r.1 ≤ c.toNat && c.toNat ≤ r.2

/-- Where in a value a character stands: in the open, behind a backslash, between single quotes, in
a name behind a dollar sign, in a name between braces, or behind the value. -/
inductive Place where
  | opened
  | escaped
  | quoted
  | name (soFar : List Char)
  | braced (soFar : List Char)
  | behind

/-- The value of a name, empty when it has none. -/
def valueOf (env : Environment) (name : List Char) : List Char :=
  ((env.get? (String.ofList name)).getD "").toList

/-- The value a text stands for from some place on, with `double` between double quotes. The
character that ends a name behind a dollar sign stands for itself. -/
def readValue? (env : Environment) : Place → (double : Bool) → List Char → Option (List Char)
  | .quoted, _, [] => none
  | .braced _, _, [] => none
  | .name soFar, double, [] => if double then none else some (valueOf env soFar)
  | _, double, [] => if double then none else some []
  | .behind, double, c :: rest =>
    if c = ' ' ∨ c = '\t' then readValue? env .behind double rest
    else if c = '#' then some []
    else none
  | .escaped, double, c :: rest => do
    let c ← escaped? c
    let value ← readValue? env .opened double rest
    some (c :: value)
  | .quoted, double, c :: rest =>
    if c = '\'' then readValue? env .opened double rest
    else (readValue? env .quoted double rest).map (c :: ·)
  | .name soFar, double, c :: rest =>
    if isLetter c then readValue? env (.name (soFar ++ [c])) double rest
    else if c = '\x7b' ∧ soFar.isEmpty then readValue? env (.braced []) double rest
    else if c = '$' then
      (readValue? env (.name []) double rest).map fun v => List.append (valueOf env soFar) v
    else
      (readValue? env .opened double rest).map fun v => List.append (valueOf env soFar) (c :: v)
  | .braced soFar, double, c :: rest =>
    if c = '\x7d' then
      (readValue? env .opened double rest).map fun v => List.append (valueOf env soFar) v
    else readValue? env (.braced (soFar ++ [c])) double rest
  | .opened, double, c :: rest =>
    if c = '$' then readValue? env (.name []) double rest
    else if c = '\\' then readValue? env .escaped double rest
    else if c = '"' then readValue? env .opened (!double) rest
    else if double then (readValue? env .opened double rest).map (c :: ·)
    else if c = '\'' then readValue? env .quoted double rest
    else if c = ' ' ∨ c = '\t' then readValue? env .behind double rest
    else (readValue? env .opened double rest).map (c :: ·)

/-! ### Assignments -/

/-- A letter of the Latin alphabet or an underscore. -/
def startsKey (c : Char) : Bool :=
  ('a' ≤ c && c ≤ 'z') || ('A' ≤ c && c ≤ 'Z') || c = '_'

/-- A character of a key behind its first. -/
def isKeyChar (c : Char) : Bool := startsKey c || ('0' ≤ c && c ≤ '9') || c = '.'

/-- A key at the front of a text, and what is behind it and the blanks that follow. -/
def readKey? : List Char → Option (List Char × List Char)
  | [] => none
  | c :: rest =>
    if startsKey c then
      some (c :: rest.takeWhile isKeyChar, (rest.dropWhile isKeyChar).dropWhile isBlank)
    else none

/-- A key with the equality sign behind it, and the text behind that. The word `export` may stand
before the key. -/
def readTarget? (cs : List Char) : Option (List Char × List Char) := do
  let (key, rest) ← readKey? cs
  match rest with
  | '=' :: rest => some (key, rest)
  | rest =>
    if key = ['e', 'x', 'p', 'o', 'r', 't'] then
      match ← readKey? rest with
      | (key, '=' :: rest) => some (key, rest)
      | _ => none
    else none

/-- A line without anything in it, or with a comment only. -/
def isVoid (cs : List Char) : Bool := cs.isEmpty || cs.head? = some '#'

/-- The assignment of a line, if it has one; none if it is anything else. -/
def readAssignment? (env : Environment) (line : List Char) : Option (Option (String × String)) :=
  let cs := trimChars line
  if isVoid cs then some none
  else do
    let (key, rest) ← readTarget? cs
    let rest := rest.dropWhile isBlank
    let value ← if isVoid rest then some [] else readValue? env .opened false rest
    some (some (String.ofList key, String.ofList value))

/-! ### Files -/

/-- The environment with one more assignment; a value with a null character cannot be set. -/
def assign? (env : Environment) (key value : String) : Option Environment :=
  if env.contains key then some env
  else if value.toList.any fun c => c.toNat = 0 then none
  else some (env.insert key value)

/-- The environment after as many lines as can be read. -/
def loadLines? : Nat → List Char → Environment → Option Environment
  | 0, _, env => some env
  | _, [], env => some env
  | fuel + 1, cs, env =>
    if isComment cs then loadLines? fuel (behindBreak cs) env
    else
      match takeLine? .none cs with
      | none => some env
      | some (line, rest) =>
        match readAssignment? env line with
        | none => some env
        | some none => loadLines? fuel rest env
        | some (some (key, value)) => (assign? env key value).bind (loadLines? fuel rest)

/-- The environment after a file of variables was read, if there is one; none if a value cannot be
set. A byte order mark may stand in front of the file. -/
def load? (env : Environment) : Option String → Option Environment
  | none => some env
  | some text =>
    let cs := match text.toList with
      | c :: rest => if c.toNat = 0xFEFF then rest else c :: rest
      | [] => []
    loadLines? cs.length cs env

end CrossBook.Variables
