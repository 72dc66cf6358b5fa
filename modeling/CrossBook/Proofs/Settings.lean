import CrossBook.Proofs.Failure
import CrossBook.Settings.Document

/-!
# Settings that are accepted

The rules of the settings as one proposition, which holds of whatever is read from a text. It bounds
most of the numbers a trade is decided by: the gas adjustment and the venue's fee are not among
them.

## Main definitions

* `Settings.Valid` — the settings keep the rules

## Main results

* `Settings.check_eq_ok_iff` — the check decides them
* `Settings.valid_of_parse`, `Settings.valid_of_load` — settings that were read keep them
-/

namespace CrossBook.Settings

open Decimal

variable {s : Settings}

/-- The rules of the chain's settings. -/
structure ValidChain (c : ChainSettings) : Prop where
  account_nonempty : c.accountAddress ≠ ""
  usd_nonempty : c.usdDenom ≠ ""
  fee_nonempty : c.feeDenom ≠ ""
  gasPrice_nonneg : zero ≤ c.gasPrice

/-- The rules of the trade's settings. -/
structure ValidTrade (t : TradeSettings) : Prop where
  deviation_nonneg : zero ≤ t.minDeviationBps
  deviation_le : t.minDeviationBps ≤ .ofUInt64 10000
  cooldown_pos : t.cooldownBlocks ≠ 0
  slippage_nonneg : zero ≤ t.slippageTolerance
  slippage_lt : t.slippageTolerance < one
  minFill_nonneg : zero ≤ t.minFillNotional
  timeout_pos : t.callTimeoutSecs ≠ 0

/-- The rules settings keep. -/
structure Valid (s : Settings) : Prop where
  chain : ValidChain s.chain
  trade : ValidTrade s.trade
  denoms_nonempty : ∀ a ∈ s.assets, a.denom ≠ ""
  pairs_nonempty : s.pairSymbols ≠ []
  pairs_known : ∃ found, s.pairs = .ok found

theorem require_eq_ok {holds : Bool} {e : ConfigError} {u : Unit} :
    require holds e = .ok u ↔ holds = true := by
  cases holds <;> simp [require]

theorem require_bind_eq_ok {α : Type} {holds : Bool} {e : ConfigError}
    {f : Unit → Except ConfigError α} {a : α} :
    (require holds e >>= f) = .ok a ↔ holds = true ∧ f () = .ok a := by
  cases holds <;> simp [require, bind, Except.bind]

theorem checkChain_eq_ok_iff {c : ChainSettings} : checkChain c = .ok () ↔ ValidChain c := by
  simp only [checkChain, require_bind_eq_ok, require_eq_ok, decide_eq_true_eq]
  exact ⟨fun ⟨account, usd, fee, gas⟩ => ⟨account, usd, fee, gas⟩,
    fun ⟨account, usd, fee, gas⟩ => ⟨account, usd, fee, gas⟩⟩

theorem checkTrade_eq_ok_iff {t : TradeSettings} : checkTrade t = .ok () ↔ ValidTrade t := by
  simp only [checkTrade, require_bind_eq_ok, require_eq_ok, decide_eq_true_eq]
  exact ⟨fun ⟨⟨low, high⟩, cooldown, ⟨slip, below⟩, fill, timeout⟩ =>
      ⟨low, high, cooldown, slip, below, fill, timeout⟩,
    fun ⟨low, high, cooldown, slip, below, fill, timeout⟩ =>
      ⟨⟨low, high⟩, cooldown, ⟨slip, below⟩, fill, timeout⟩⟩

theorem forM_checkAsset_eq_ok_iff {assets : List Asset} :
    assets.forM checkAsset = .ok () ↔ ∀ a ∈ assets, a.denom ≠ "" := by
  induction assets with
  | nil => simp [pure, Except.pure]
  | cons a rest ih =>
    change (checkAsset a >>= fun _ => rest.forM checkAsset) = .ok () ↔ _
    rw [checkAsset, require_bind_eq_ok, ih, List.forall_mem_cons, decide_eq_true_eq]

/-- The check accepts the settings that keep the rules. -/
theorem check_eq_ok_iff : s.check = .ok () ↔ s.Valid := by
  have empty : (!s.pairSymbols.isEmpty) = true ↔ s.pairSymbols ≠ [] := by simp
  constructor
  · intro h
    obtain ⟨⟨⟩, chain, h⟩ := bind_eq_ok.mp h
    obtain ⟨⟨⟩, trade, h⟩ := bind_eq_ok.mp h
    obtain ⟨⟨⟩, assets, h⟩ := bind_eq_ok.mp h
    obtain ⟨some_pair, h⟩ := require_bind_eq_ok.mp h
    obtain ⟨found, known, -⟩ := bind_eq_ok.mp h
    exact ⟨checkChain_eq_ok_iff.mp chain, checkTrade_eq_ok_iff.mp trade,
      forM_checkAsset_eq_ok_iff.mp assets, empty.mp some_pair, found, known⟩
  · rintro ⟨chain, trade, assets, some_pair, found, known⟩
    exact bind_eq_ok.mpr ⟨(), checkChain_eq_ok_iff.mpr chain,
      bind_eq_ok.mpr ⟨(), checkTrade_eq_ok_iff.mpr trade,
        bind_eq_ok.mpr ⟨(), forM_checkAsset_eq_ok_iff.mpr assets,
          require_bind_eq_ok.mpr ⟨empty.mpr some_pair,
            bind_eq_ok.mpr ⟨found, known, rfl⟩⟩⟩⟩⟩

theorem checked_eq_ok_iff {s' : Settings} : s.checked = .ok s' ↔ s = s' ∧ s.Valid := by
  rw [checked, bind_eq_ok, ← check_eq_ok_iff]
  constructor
  · rintro ⟨⟨⟩, kept, same⟩
    exact ⟨Except.ok.inj same, kept⟩
  · rintro ⟨rfl, kept⟩
    exact ⟨(), kept, rfl⟩

theorem valid_of_parse {text : String} (h : parse text = .ok s) : s.Valid := by
  obtain ⟨s', -, h⟩ := bind_eq_ok.mp h
  obtain ⟨rfl, valid⟩ := checked_eq_ok_iff.mp h
  exact valid

theorem valid_of_load {content account : Option String} (h : load content account = .ok s) :
    s.Valid := by
  obtain ⟨text, -, h⟩ := bind_eq_ok.mp h
  obtain ⟨s', -, h⟩ := bind_eq_ok.mp h
  obtain ⟨rfl, valid⟩ := checked_eq_ok_iff.mp h
  exact valid

end CrossBook.Settings
