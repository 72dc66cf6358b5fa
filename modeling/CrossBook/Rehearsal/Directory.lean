import CrossBook.Table

/-!
# The directory of a rehearsal

A directory that holds texts, and the paths that lead to them from inside it.

## Main definitions

* `Rehearsal.Directory` — texts by the names on the way to them
* `Rehearsal.Directory.read?` — the text a path leads to
-/

namespace CrossBook.Rehearsal

/-- Texts by the names on the way to them. -/
structure Directory where
  files : Table (List String) String

namespace Directory

/-- The directory without files. -/
def empty : Directory := ⟨.empty⟩

/-- The parts of a path between its slashes. -/
def splitSlashes : List Char → List (List Char)
  | [] => [[]]
  | c :: cs =>
    if c = '/' then [] :: splitSlashes cs
    else match splitSlashes cs with
      | [] => [[c]]
      | part :: parts => (c :: part) :: parts

/-- The parts of a path. -/
def parts (path : String) : List String := (splitSlashes path.toList).map String.ofList

/-- A part that leads nowhere else. -/
def isIdle (part : String) : Bool := part = "" || part = "."

/-- The directory with a file written at a path inside it. -/
def write (d : Directory) (path content : String) : Directory :=
  ⟨d.files.insert ((parts path).filter fun part => !isIdle part) content⟩

/-- Some file lies below a place. -/
def isDirectory (d : Directory) (place : List String) : Bool :=
  d.files.entries.any fun e => place.isPrefixOf e.1 && place.length < e.1.length

/-- The text that parts of a path lead to from a place. A part that others follow has to be a
directory, the last one has to be a file, and nothing outside the directory is known. -/
def follow? (d : Directory) : List String → (place : List String) → Option String
  | [], _ => none
  | part :: rest, place =>
    if isIdle part then d.follow? rest place
    else if part = ".." then
      if place.isEmpty then none else d.follow? rest place.dropLast
    else if rest.isEmpty then d.files.get? (place ++ [part])
    else if d.isDirectory (place ++ [part]) then d.follow? rest (place ++ [part])
    else none

/-- The text a path leads to. A path that starts with a slash leaves the directory. -/
def read? (d : Directory) (path : String) : Option String :=
  if path.toList.head? = some '/' then none else d.follow? (parts path) []

end Directory

end CrossBook.Rehearsal
