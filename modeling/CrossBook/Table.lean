/-!
# Tables

Finite maps as lists of entries, in the order in which their keys first came.

## Main definitions

* `Table` — entries by key
* `Table.get?`, `Table.insert` — looking up and replacing
-/

namespace CrossBook

/-- Entries by key, in the order in which the keys first came. -/
structure Table (κ ν : Type) where
  entries : List (κ × ν)

namespace Table

variable {κ ν : Type} [DecidableEq κ]

/-- The table without entries. -/
def empty : Table κ ν := ⟨[]⟩

instance : Inhabited (Table κ ν) := ⟨empty⟩

/-- The value of the first entry with the key. -/
def find? (key : κ) : List (κ × ν) → Option ν
  | [] => none
  | e :: rest => if e.1 = key then some e.2 else find? key rest

/-- The entries with the value of the key replaced, or with an entry behind them. -/
def put (key : κ) (value : ν) : List (κ × ν) → List (κ × ν)
  | [] => [(key, value)]
  | e :: rest => if e.1 = key then (key, value) :: rest else e :: put key value rest

/-- The value of a key. -/
def get? (t : Table κ ν) (key : κ) : Option ν := find? key t.entries

/-- The table with this value for the key and all others kept. -/
def insert (t : Table κ ν) (key : κ) (value : ν) : Table κ ν := ⟨put key value t.entries⟩

/-- The table with entries inserted from a list, later ones over earlier ones. -/
def ofList (entries : List (κ × ν)) : Table κ ν := entries.foldl (fun t e => t.insert e.1 e.2) empty

/-- The number of keys. -/
def size (t : Table κ ν) : Nat := t.entries.length

/-- The key has a value. -/
def contains (t : Table κ ν) (key : κ) : Bool := (t.get? key).isSome

@[simp] theorem get?_empty (key : κ) : (empty : Table κ ν).get? key = none := rfl

theorem find?_put_self (key : κ) (value : ν) (entries : List (κ × ν)) :
    find? key (put key value entries) = some value := by
  induction entries with
  | nil => simp [put, find?]
  | cons e rest ih => by_cases h : e.1 = key <;> simp [put, find?, h, ih]

theorem find?_put_of_ne {key other : κ} (h : other ≠ key) (value : ν) (entries : List (κ × ν)) :
    find? other (put key value entries) = find? other entries := by
  induction entries with
  | nil => simp [put, find?, Ne.symm h]
  | cons e rest ih =>
    by_cases he : e.1 = key
    · simp [put, find?, he, Ne.symm h]
    · rw [put, if_neg he, find?, find?, ih]

@[simp] theorem get?_insert_self (t : Table κ ν) (key : κ) (value : ν) :
    (t.insert key value).get? key = some value := find?_put_self key value t.entries

theorem get?_insert_of_ne (t : Table κ ν) {key other : κ} (h : other ≠ key) (value : ν) :
    (t.insert key value).get? other = t.get? other := find?_put_of_ne h value t.entries

end Table

end CrossBook
