import CrossBook.Settings.Basic
import CrossBook.Toml.Reader

/-!
# Settings as TOML documents

A group of settings is a table with a key for each, or a list with a value for each. Keys that
nothing is named by are left alone, and what is not given has its default.

## Main definitions

* `Toml.Group` — settings by name or by position
* `Settings.ofDocument?` — the settings of a document
* `Settings.parse`, `Settings.load` — the settings of a text, when they keep the rules
-/

namespace CrossBook

namespace Toml

/-- Settings by name or by position. -/
inductive Group where
  | named (entries : Entries)
  | listed (items : List Toml)

/-- The group a value stands for. Lists of tables are lists, and a moment names no setting. -/
def group? : Toml → Option Group
  | .table _ entries => some (.named entries)
  | .array items => some (.listed items)
  | .tables items => some (.listed (items.map (.table .header)))
  | .moment => some (.named [])
  | _ => none

/-- The value of a setting, which has a position and a name. -/
def Group.value? (g : Group) (position : Nat) (name : String) : Option Toml :=
  match g with
  | .named entries => entries.find? name
  | .listed items => items[position]?

/-- A setting that has to be given. -/
def Group.need {α : Type} (g : Group) (position : Nat) (name : String) (read : Toml → Option α) :
    Option α := (g.value? position name).bind read

/-- A setting with a default. -/
def Group.orElse {α : Type} (g : Group) (position : Nat) (name : String)
    (read : Toml → Option α) (default : α) : Option α :=
  match g.value? position name with
  | some v => read v
  | none => some default

/-- A text. -/
def text? : Toml → Option String
  | .string s => some s
  | _ => none

/-- A natural number below a bound. -/
def natural? (bound : Nat) : Toml → Option Nat
  | .integer i => if 0 ≤ i ∧ i < bound then some i.toNat else none
  | _ => none

/-- A decimal, as a text, an integer or a float. -/
def decimal? : Toml → Option Decimal
  | .string s => Decimal.ofText? s
  | .integer i => Decimal.ofParts? i 0
  | .float x => x.decimal?
  | _ => none

/-- A list of values. -/
def list? {α : Type} (read : Toml → Option α) : Toml → Option (List α)
  | .array items => items.mapM read
  | .tables items => (items.map (.table .header)).mapM read
  | _ => none

end Toml

namespace Settings

/-- Words of sixty-four bits stay below this. -/
def wordBound : Nat := twoTo 64

/-- Words of thirty-two bits stay below this. -/
def halfWordBound : Nat := twoTo 32

/-- The settings of a log. -/
def readLog? (v : Toml) : Option LogSettings := do
  let g ← v.group?
  let d : LogSettings := {}
  some { level := ← g.orElse 0 "level" Toml.text? d.level
         format := ← g.orElse 1 "format" Toml.text? d.format }

/-- The settings of a trade. -/
def readTrade? (v : Toml) : Option TradeSettings := do
  let g ← v.group?
  let d : TradeSettings := {}
  some
    { minDeviationBps := ← g.orElse 0 "min_deviation_bps" Toml.decimal? d.minDeviationBps
      cooldownBlocks := ← g.orElse 1 "cooldown_blocks" (Toml.natural? wordBound) d.cooldownBlocks
      minFillNotional := ← g.orElse 2 "min_fill_notional" Toml.decimal? d.minFillNotional
      slippageTolerance := ← g.orElse 3 "slippage_tolerance" Toml.decimal? d.slippageTolerance
      takerFeeBps := ← g.orElse 4 "venue_taker_fee_bps" Toml.decimal? d.takerFeeBps
      callTimeoutSecs :=
        ← g.orElse 5 "call_timeout_secs" (Toml.natural? wordBound) d.callTimeoutSecs }

/-- The settings of the chain. -/
def readChain? (v : Toml) : Option ChainSettings := do
  let g ← v.group?
  let d : ChainSettings := { usdDenom := "" }
  some
    { accountAddress := ← g.orElse 0 "account_address" Toml.text? d.accountAddress
      usdDenom := ← g.need 1 "usd_denom" Toml.text?
      feeDenom := ← g.orElse 2 "fee_denom" Toml.text? d.feeDenom
      feeDecimals := ← g.orElse 3 "fee_decimals" (Toml.natural? halfWordBound) d.feeDecimals
      gasPrice := ← g.orElse 4 "gas_price" Toml.decimal? d.gasPrice
      gasAdjustment := ← g.orElse 5 "gas_adjustment" Toml.decimal? d.gasAdjustment }

/-- An asset. -/
def readAsset? (v : Toml) : Option Asset := do
  let g ← v.group?
  some
    { symbol := ← g.need 0 "symbol" Toml.text?
      denom := ← g.need 1 "denom" Toml.text?
      decimals :=
        ← g.orElse 2 "decimals" (fun v => (Toml.natural? halfWordBound v).map some) none
      minFill := ← g.orElse 3 "min_fill" (fun v => (Toml.decimal? v).map some) none }

/-- The symbols of a pair. -/
def readPair? (v : Toml) : Option PairSymbols := do
  let g ← v.group?
  some { base := ← g.need 0 "base" Toml.text?, quote := ← g.need 1 "quote" Toml.text? }

/-- The settings of a document. -/
def ofDocument? (document : Toml.Entries) : Option Settings := do
  let g := Toml.Group.named document
  some
    { log := ← g.orElse 0 "logging" readLog? {}
      trade := ← g.orElse 1 "arbitrage" readTrade? {}
      chain := ← g.need 2 "chain" readChain?
      assets := ← g.orElse 3 "assets" (Toml.list? readAsset?) []
      pairSymbols := ← g.orElse 4 "pairs" (Toml.list? readPair?) [] }

/-- The settings of a text, whether or not they keep the rules. -/
def ofText (text : String) : Except ConfigError Settings :=
  orError .malformed ((Toml.read? text).bind ofDocument?)

/-- The settings of a text, when they keep the rules. -/
def parse (text : String) : Except ConfigError Settings := do
  let s ← ofText text
  s.checked

/-- The settings of a file with its text, when they keep the rules. An account given from outside
stands in for the one in the file. -/
def load (content account : Option String) : Except ConfigError Settings := do
  let text ← orError .unreadable content
  let s ← ofText text
  (s.withAccount account).checked

end Settings

end CrossBook
