import CrossBook.Toml.Token

/-!
# Reading TOML

A document is a sequence of lines: keys with values, headers of tables, and headers of lists of
tables. A table is defined once; what was only passed on the way to something else may still get a
header, and what keys with dots made may get more such keys.

## Main definitions

* `Toml.readValue?` — a value at the front of a text
* `Toml.Line`, `Toml.readLine?` — a line of a document
* `Toml.Builder` — a document as far as it was read
* `Toml.read?` — the entries of a document
-/

namespace CrossBook.Toml

/-! ### Tables under construction -/

/-- A table that is being filled: how it came to be, and its entries. -/
structure Draft where
  origin : Origin
  entries : Entries

/-- Changes the table a path leads to from this one, making tables on the way. `dotted` says that
the path belongs to a key: such a path makes tables of its own kind and does not enter a table that
has a header or is written as a value. -/
def Draft.modify {α : Type} (dotted inline : Bool) (f : Draft → Option (Draft × α)) :
    List String → Draft → Option (Draft × α)
  | [], t => f t
  | key :: path, t =>
    match t.entries.find? key with
    | none => do
      let made : Draft := ⟨if dotted then .dotted else .passed, []⟩
      let (sub, a) ← Draft.modify dotted inline f path made
      some ({ t with entries := t.entries.put key (.table sub.origin sub.entries) }, a)
    | some (.table origin entries) => do
      if origin = .inline ∨ (dotted ∧ origin = .header) then none
      else
        let (sub, a) ← Draft.modify dotted inline f path ⟨origin, entries⟩
        some ({ t with entries := t.entries.put key (.table sub.origin sub.entries) }, a)
    | some (.tables items) => do
      if inline then none
      else
        let last ← items.getLast?
        let (sub, a) ← Draft.modify dotted inline f path ⟨.header, last⟩
        let items := items.dropLast ++ [sub.entries]
        some ({ t with entries := t.entries.put key (.tables items) }, a)
    | some _ => none

/-- Puts a value under a key into the table its path leads to: one that keys with dots made when the
key has dots, and one that they did not make when it has none. -/
def Draft.define (inline : Bool) (path : List String) (v : Toml) (t : Draft) : Option Draft := do
  let key ← path.getLast?
  let path := path.dropLast
  let (t, _) ← Draft.modify true inline (fun t =>
    if decide (t.origin = .dotted) = path.isEmpty then none
    else match t.entries.find? key with
      | some _ => none
      | none => some ({ t with entries := t.entries.put key v }, ())) path t
  some t

/-- A table written as a value. -/
def inlineTable? (pairs : List (List String × Toml)) : Option Toml := do
  let t ← pairs.foldlM (fun t p => Draft.define true p.1 p.2 t) ⟨.header, []⟩
  some (.table .inline t.entries)

/-! ### Values -/

/-- The depth of nesting, and the number of parts of a key, that a document stays under. -/
def depthLimit : Nat := 80

/-- A key with a number of parts under the limit. -/
def readKeyPath? (cs : List Char) : Option (List String × List Char) :=
  readPath? (depthLimit - 1) cs

mutual
/-- A value at the front of a text, `depth` lists and tables inside another. -/
def readValue? : Nat → (depth : Nat) → List Char → Option (Toml × List Char)
  | 0, _, _ => none
  | fuel + 1, depth, cs =>
    match cs with
    | [] => none
    | '[' :: rest => if depth + 1 < depthLimit then readItems? fuel (depth + 1) rest [] else none
    | '\x7b' :: rest =>
      if depth + 1 < depthLimit then
        match skipBlanks rest with
        | '\x7d' :: rest => some (.table .inline [], rest)
        | rest => readPairs? fuel (depth + 1) rest []
      else none
    | 't' :: 'r' :: 'u' :: 'e' :: rest => some (.boolean true, rest)
    | 'f' :: 'a' :: 'l' :: 's' :: 'e' :: rest => some (.boolean false, rest)
    | c :: _ =>
      if c = '"' ∨ c = '\'' then (readString? cs).map fun p => (.string p.1, p.2)
      else match readMoment? cs with
        | some rest => some (.moment, rest)
        | none => readNumber? cs

/-- The values of a list up to its closing bracket, behind those already read. -/
def readItems? : Nat → (depth : Nat) → List Char → List Toml → Option (Toml × List Char)
  | 0, _, _, _ => none
  | fuel + 1, depth, cs, items =>
    match skipGap cs.length cs with
    | ']' :: rest => some (.array items, rest)
    | cs => do
      let (v, rest) ← readValue? fuel depth cs
      match skipGap rest.length rest with
      | ']' :: rest => some (.array (items ++ [v]), rest)
      | ',' :: rest => readItems? fuel depth rest (items ++ [v])
      | _ => none

/-- The pairs of a table up to its closing brace, behind those already read. -/
def readPairs? : Nat → (depth : Nat) → List Char → List (List String × Toml) →
    Option (Toml × List Char)
  | 0, _, _, _ => none
  | fuel + 1, depth, cs, pairs => do
    let (path, rest) ← readKeyPath? cs
    match rest with
    | '=' :: rest =>
      let (v, rest) ← readValue? fuel depth (skipBlanks rest)
      match skipBlanks rest with
      | '\x7d' :: rest => (inlineTable? (pairs ++ [(path, v)])).map fun t => (t, rest)
      | ',' :: rest => readPairs? fuel depth rest (pairs ++ [(path, v)])
      | _ => none
    | _ => none
end

/-! ### Lines -/

/-- A line of a document. -/
inductive Line where
  | blank
  | pair (path : List String) (v : Toml)
  | table (path : List String)
  | tables (path : List String)

/-- A line at the front of a text, and the text behind it. -/
def readLine? (cs : List Char) : Option (Line × List Char) :=
  match skipBlanks cs with
  | '[' :: '[' :: rest => do
    match ← readKeyPath? rest with
    | (path, ']' :: ']' :: rest) => some (.tables path, ← skipLine? rest)
    | _ => none
  | '[' :: rest => do
    match ← readKeyPath? rest with
    | (path, ']' :: rest) => some (.table path, ← skipLine? rest)
    | _ => none
  | rest =>
    match skipLine? rest with
    | some rest => some (.blank, rest)
    | none => do
      match ← readKeyPath? rest with
      | (path, '=' :: rest) =>
        let (v, rest) ← readValue? (2 * rest.length + 1) 0 (skipBlanks rest)
        some (.pair path v, ← skipLine? rest)
      | _ => none

/-- The lines of a text. -/
def readLines? : Nat → List Char → Option (List Line)
  | _, [] => some []
  | 0, _ => none
  | fuel + 1, cs => do
    let (line, rest) ← readLine? cs
    let lines ← readLines? fuel rest
    some (line :: lines)

/-! ### Documents -/

/-- A document as far as it was read: what is complete, and the table the last header opened. -/
structure Builder where
  root : Entries
  path : List String
  isList : Bool
  current : Entries

namespace Builder

/-- A document before its first line. -/
def empty : Builder := ⟨[], [], false, []⟩

/-- Changes the table in which the last part of a path is a key. -/
def modifyParent {α : Type} (path : List String) (f : String → Draft → Option (Draft × α))
    (root : Entries) : Option (Entries × α) := do
  let key ← path.getLast?
  let (t, a) ← Draft.modify false false (f key) path.dropLast ⟨.header, root⟩
  some (t.entries, a)

/-- The complete tables with the one that is open. -/
def close (b : Builder) : Option Entries :=
  if b.path.isEmpty then some b.current
  else do
    let (root, _) ← modifyParent b.path (fun key t =>
      match t.entries.find? key, b.isList with
      | none, true => some ({ t with entries := t.entries.put key (.tables [b.current]) }, ())
      | some (.tables items), true =>
        some ({ t with entries := t.entries.put key (.tables (items ++ [b.current])) }, ())
      | none, false => some ({ t with entries := t.entries.put key (.table .header b.current) }, ())
      | _, _ => none) b.root
    some root

/-- Opens a table: a new one, or one that was passed only. -/
def openTable (b : Builder) (path : List String) : Option Builder := do
  let root ← b.close
  let (root, current) ← modifyParent path (fun key t =>
    match t.entries.find? key with
    | none => some (t, [])
    | some (.table .passed entries) => some ({ t with entries := t.entries.without key }, entries)
    | some _ => none) root
  some ⟨root, path, false, current⟩

/-- Opens the next table of a list of tables. -/
def openTables (b : Builder) (path : List String) : Option Builder := do
  let root ← b.close
  let (root, _) ← modifyParent path (fun key t =>
    match t.entries.find? key with
    | none => some (t, ())
    | some (.tables _) => some (t, ())
    | some _ => none) root
  some ⟨root, path, true, []⟩

/-- The document with one more line. -/
def add (b : Builder) : Line → Option Builder
  | .blank => some b
  | .pair path v => do
    let t ← Draft.define false path v ⟨.header, b.current⟩
    some { b with current := t.entries }
  | .table path => b.openTable path
  | .tables path => b.openTables path

end Builder

/-- The entries of a document. A byte order mark may stand in front of it. -/
def readChars? (cs : List Char) : Option Entries := do
  let cs := match cs with
    | c :: rest => if c.toNat = 0xFEFF then rest else cs
    | [] => []
  let lines ← readLines? (cs.length + 1) cs
  let b ← lines.foldlM Builder.add Builder.empty
  b.close

/-- The entries of a document. -/
def read? (s : String) : Option Entries := readChars? s.toList

end CrossBook.Toml
