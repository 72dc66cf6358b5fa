import CrossBook.Decimal.Basic
import CrossBook.Table

/-!
# Assets and pairs

The assets an account trades, told apart by their symbols, and the pairs made of them.

## Main definitions

* `Asset`, `AssetTable.ofAssets` — assets by symbol
* `Pair` — a base and a quote, with its display name and its symbol on the venue
-/

namespace CrossBook

/-- An asset: its symbol on the venue and its denomination on the chain. -/
structure Asset where
  symbol : String
  denom : String
  decimals : Option Nat
  minFill : Option Decimal
deriving DecidableEq

/-- Assets by symbol. -/
abbrev AssetTable := Table String Asset

namespace AssetTable

/-- The table with more assets, or the first symbol that is there already. -/
def extend (t : AssetTable) : List Asset → Except String AssetTable
  | [] => .ok t
  | a :: rest => if t.contains a.symbol then .error a.symbol else extend (t.insert a.symbol a) rest

/-- The table of some assets, or the first symbol that comes twice. -/
def ofAssets (assets : List Asset) : Except String AssetTable := extend Table.empty assets

end AssetTable

/-- A base traded for a quote. -/
structure Pair where
  base : Asset
  quote : Asset
deriving DecidableEq

namespace Pair

/-- The display name of a pair. -/
def name (p : Pair) : String := p.base.symbol ++ "/" ++ p.quote.symbol

/-- The symbol of a pair on the venue. -/
def venueSymbol (p : Pair) : String := p.base.symbol ++ p.quote.symbol

end Pair

end CrossBook
