import CrossBook.Decimal.Binary64
import CrossBook.Decimal.Text

/-!
# TOML values

Tables remember how they came into a document, because that decides what may still be added to
them.

## Main definitions

* `Toml.Origin` — how a table came into a document
* `Toml` — values
* `Toml.Float` — floating point numbers
-/

namespace CrossBook

namespace Toml

/-- How a table came into a document. -/
inductive Origin where
  /-- Named by a header of its own, or an element of a list of tables. -/
  | header
  /-- Passed on the way to another table. -/
  | passed
  /-- Passed on the way to a key with dots. -/
  | dotted
  /-- Written as a value. -/
  | inline
deriving DecidableEq

/-- A floating point number: its sign and its magnitude, which an infinity or a number that is none
has not. -/
structure Float where
  negative : Bool
  magnitude : Option Binary64
deriving DecidableEq

/-- The decimal with the shortest digits of a finite number. -/
def Float.decimal? (x : Float) : Option Decimal :=
  x.magnitude.bind fun m => Decimal.ofChars? (if x.negative then '-' :: m.chars else m.chars)

end Toml

/-- A TOML value, or a table of a document. -/
inductive Toml where
  | string (s : String)
  | integer (i : Int)
  | float (x : Toml.Float)
  | boolean (b : Bool)
  | moment
  | array (items : List Toml)
  | table (origin : Toml.Origin) (entries : List (String × Toml))
  | tables (items : List (List (String × Toml)))

namespace Toml

/-- The entries of a table. -/
abbrev Entries := List (String × Toml)

/-- The value of a key. -/
def Entries.find? (key : String) : Entries → Option Toml
  | [] => none
  | e :: rest => if e.1 = key then some e.2 else Entries.find? key rest

/-- The entries with the value of a key replaced, or with the key behind them. -/
def Entries.put (key : String) (v : Toml) : Entries → Entries
  | [] => [(key, v)]
  | e :: rest => if e.1 = key then (key, v) :: rest else e :: Entries.put key v rest

/-- The entries without a key. -/
def Entries.without (key : String) (entries : Entries) : Entries :=
  entries.filter fun e => e.1 ≠ key

end Toml

end CrossBook
