import CrossBook.Failure
import CrossBook.Market
import CrossBook.Trade.Profit

/-!
# Settings

What the engine is told before it starts: thresholds of a trade, the account on the chain, the
assets and the pairs made of them.

## Main definitions

* `Settings` — all settings, with their defaults
* `Settings.pairs` — the pairs with their assets
* `Settings.check` — the rules settings keep
-/

namespace CrossBook

/-- How the engine writes its log. -/
structure LogSettings where
  level : String := "info"
  format : String := "pretty"
deriving DecidableEq

/-- Thresholds for detecting, sizing and executing a trade. -/
structure TradeSettings where
  minDeviationBps : Decimal := .ofUInt64 60
  cooldownBlocks : Nat := 5
  minFillNotional : Decimal := .ofUInt64 10
  slippageTolerance : Decimal := .ofWord 5 3
  takerFeeBps : Decimal := .ofUInt64 10
  callTimeoutSecs : Nat := 10
deriving DecidableEq

/-- The account on the chain and what its transactions are paid in. -/
structure ChainSettings where
  accountAddress : String := ""
  usdDenom : String
  feeDenom : String := "uosmo"
  feeDecimals : Nat := 6
  gasPrice : Decimal := .ofWord 1 1
  gasAdjustment : Decimal := .ofWord 102 2
deriving DecidableEq

/-- The symbols of a pair. -/
structure PairSymbols where
  base : String
  quote : String
deriving DecidableEq

/-- All settings. -/
structure Settings where
  log : LogSettings := {}
  trade : TradeSettings := {}
  chain : ChainSettings
  assets : List Asset := []
  pairSymbols : List PairSymbols := []
deriving DecidableEq

namespace Settings

/-- The assets by symbol, unless a symbol comes twice. -/
def assetTable (s : Settings) : Except ConfigError AssetTable :=
  match AssetTable.ofAssets s.assets with
  | .ok t => .ok t
  | .error symbol => .error (.duplicateAsset symbol)

/-- The asset with a symbol. -/
def lookUp (t : AssetTable) (symbol : String) : Except ConfigError Asset :=
  orError (.unknownAsset symbol) (t.get? symbol)

/-- The pair with two symbols, the base looked up first. -/
def pairOf (t : AssetTable) (p : PairSymbols) : Except ConfigError Pair := do
  let base ← lookUp t p.base
  let quote ← lookUp t p.quote
  .ok ⟨base, quote⟩

/-- The pairs with their assets, in the order they were given. -/
def pairs (s : Settings) : Except ConfigError (List Pair) := do
  let t ← s.assetTable
  s.pairSymbols.mapM (pairOf t)

/-- Fees and tolerances that plans are judged by. -/
def costModel (s : Settings) : Trade.CostModel where
  slippageTolerance := s.trade.slippageTolerance
  takerFeeBps := s.trade.takerFeeBps
  gasPrice := s.chain.gasPrice
  gasAdjustment := s.chain.gasAdjustment
  feeDecimals := s.chain.feeDecimals

/-- Nothing, or the error. -/
def require (holds : Bool) (e : ConfigError) : Except ConfigError Unit :=
  if holds then .ok () else .error e

/-- The rules of the chain's settings. -/
def checkChain (c : ChainSettings) : Except ConfigError Unit := do
  require (c.accountAddress ≠ "") (.missingField "chain.account_address")
  require (c.usdDenom ≠ "") (.missingField "chain.usd_denom")
  require (c.feeDenom ≠ "") (.missingField "chain.fee_denom")
  require (Decimal.zero ≤ c.gasPrice) (.invalidValue "chain.gas_price" "must not be negative")

/-- The rules of the trade's settings. -/
def checkTrade (t : TradeSettings) : Except ConfigError Unit := do
  require (Decimal.zero ≤ t.minDeviationBps ∧ t.minDeviationBps ≤ .ofUInt64 10000)
    (.invalidValue "arbitrage.min_deviation_bps" "must be between 0 and 10000")
  require (t.cooldownBlocks ≠ 0) (.invalidValue "arbitrage.cooldown_blocks" "must be at least 1")
  require (Decimal.zero ≤ t.slippageTolerance ∧ t.slippageTolerance < Decimal.one)
    (.invalidValue "arbitrage.slippage_tolerance" "must be in [0, 1)")
  require (Decimal.zero ≤ t.minFillNotional)
    (.invalidValue "arbitrage.min_fill_notional" "must not be negative")
  require (t.callTimeoutSecs ≠ 0)
    (.invalidValue "arbitrage.call_timeout_secs" "must be at least 1")

/-- The rule of an asset. -/
def checkAsset (a : Asset) : Except ConfigError Unit :=
  require (a.denom ≠ "") (.invalidValue "assets.denom" ("empty for " ++ a.symbol))

/-- The rules settings keep, the first one that is broken being the error. -/
def check (s : Settings) : Except ConfigError Unit := do
  checkChain s.chain
  checkTrade s.trade
  s.assets.forM checkAsset
  require (!s.pairSymbols.isEmpty) (.missingField "pairs")
  let _ ← s.pairs
  .ok ()

/-- The settings, when they keep the rules. -/
def checked (s : Settings) : Except ConfigError Settings := do
  s.check
  .ok s

/-- The settings with another account. -/
def withAccount (s : Settings) (address : Option String) : Settings :=
  match address with
  | some a => { s with chain := { s.chain with accountAddress := a } }
  | none => s

end Settings

end CrossBook
