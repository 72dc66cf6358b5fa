import CrossBook.Proofs.Engine.Cooldowns
import CrossBook.Proofs.Engine.Minimums
import CrossBook.Proofs.Engine.Settlements
import CrossBook.Proofs.Market

/-!
# Pairs that are kept apart

Settings that are accepted may call two pairs the same, and then the two share how long they rest,
and perhaps a book. Where display names differ, each pair is told of once in a block and trades at a
height at most once.

## Main results

* `Engine.Session.pairs_of_list` — a session trades the pairs of its settings
* `Engine.Session.Single.told_once` — blocks tell one outcome of a pair whose name nobody shares
* `Engine.Session.told_apart` — and it trades at a height at most once
* `Engine.Session.pairs_apart` — pairs of settings that are accepted, and when they are kept apart
-/

namespace CrossBook.Engine.Session

variable {σ : Type} {s s₀ : Session σ} {t : Trader} {settings : Settings} {log : List Occurrence}
  {base : Cooldowns}

/-! ### The pairs of a session -/

theorem findAll_pairs {net : Network σ} {pairs : List Pair} {found : List Listing}
    {scene scene' : Scene σ} (h : findAll net pairs scene = (.ok found, scene')) :
    found.map (·.pair) = pairs := by
  induction pairs generalizing found scene scene' with
  | nil =>
    obtain rfl := Except.ok.inj (Prod.mk.inj h).1
    rfl
  | cons p pairs ih =>
    obtain ⟨l, _, first, h⟩ := Listing.inquiry_bind_eq_ok h
    obtain ⟨rest, _, others, h⟩ := Listing.inquiry_bind_eq_ok h
    obtain rfl := Except.ok.inj (Prod.mk.inj h).1
    obtain ⟨m, -, follows⟩ := Listing.find_follows first
    rw [List.map_cons, follows.pair_eq, ih others]

/-- A session whose pairs were listed trades the pairs of its settings, in their order. -/
theorem pairs_of_list (listed : s.list settings = (s₀, .ok ())) :
    settings.pairs = .ok (s₀.traders.map (·.listing.pair)) ∧
      ∀ t ∈ s₀.traders, t.settings = settings := by
  obtain ⟨_, listings, scene, known, all, rfl⟩ := list_eq_ok_iff.mp listed
  refine ⟨?_, fun t among => settings_tradersOf among⟩
  rw [known, ← findAll_pairs all]
  conv_lhs => rw [← listings_tradersOf settings listings, List.map_map]
  rfl

/-! ### What blocks tell of a pair -/

/-- Every block that returns tells one outcome of a pair whose display name nobody shares. -/
theorem Single.told_once (single : s.Single t) (starts : s.Starts base) (moves : List (Move σ))
    {height : Nat} {refreshed : List Nat} {outcomes : List PairOutcome}
    (ended : .ended (.ok (.processed height refreshed outcomes)) ∈ (s.history moves).2) :
    ∃ o, outcomes.filter (·.pair = t.name) = [⟨t.name, o⟩] := by
  induction moves using List.reverseRecOn with
  | nil => cases ended
  | append_singleton moves m ih =>
    rw [history_concat] at ended
    rcases List.mem_append.mp ended with earlier | now
    · exact ih earlier
    · have before := single.history moves
      obtain ⟨base', starts⟩ := starts.history single.companions moves
      rcases starts.happen before.companions m with
        ⟨unended, -⟩ | ⟨loads, r, _, seen, -, concludes⟩
      · exact absurd now (unended _)
      · obtain rfl : .ok (.processed height refreshed outcomes) = r := by
          rw [seen] at now
          simpa using now
        obtain ⟨-, o, only, -⟩ :=
          concludes.exists_outcome (before.of_eq (traders_happen _ m))
        exact ⟨o, only⟩

/-- Where no two pairs of a session have one display name, every block that returns tells one outcome
of each pair, and each trades at a height at most once. -/
theorem told_apart (listed : s.list settings = (s₀, .ok ()))
    (names : s₀.traders.Pairwise fun t t' => t.name ≠ t'.name)
    (rests : settings.trade.cooldownBlocks ≠ 0) (moves : List (Move σ)) (among : t ∈ s₀.traders) :
    (∀ height refreshed outcomes,
      .ended (.ok (.processed height refreshed outcomes)) ∈ (s₀.history moves).2 →
      ∃ o, outcomes.filter (·.pair = t.name) = [⟨t.name, o⟩]) ∧
    (tradeHeights t.name (s₀.history moves).2).Pairwise (· < ·) := by
  obtain ⟨companions, first⟩ := companions_list listed
  have single : s₀.Single t := by
    have different : (s₀.traders.map Trader.name).Nodup := List.pairwise_map.mpr names
    exact ⟨companions, among, fun t' among' shared =>
      List.inj_on_of_nodup_map different among' among shared⟩
  have chronicle : s₀.Chronicle t [] := ⟨⟨_, first, by simp [tradeHeights]⟩, List.Pairwise.nil⟩
  have chronicle := chronicle.history single moves
  rw [List.nil_append] at chronicle
  refine ⟨fun height refreshed outcomes => single.told_once first moves,
    chronicle.apart.imp fun rested => ?_⟩
  -- a pair rests beyond the block of its trade
  rw [Trader.restsUntil, (pairs_of_list listed).2 t among] at rested
  omega

/-- What settings that are accepted make of their pairs. Two pairs have one display name, or one
symbol on the venue, when they are the same or when the base of one runs into the quote of the
other. Sessions trade all of them. Where no two entries have one symbol on the venue, no two pairs
share a book; and where no two have one display name, no two share how long they rest, every block
that returns tells one outcome of each, and each trades at a height at most once. -/
theorem pairs_apart {text : String} (accepted : Settings.parse text = .ok settings) :
    ∃ found, settings.pairs = .ok found ∧ found.map Pair.symbols = settings.pairSymbols ∧
      (∀ p ∈ found, ∀ q ∈ found,
        (p.name = q.name ↔ p = q ∨ p.symbols.RunsInto "/" q.symbols ∨
          q.symbols.RunsInto "/" p.symbols) ∧
        (p.venueSymbol = q.venueSymbol ↔ p = q ∨ p.symbols.RunsInto "" q.symbols ∨
          q.symbols.RunsInto "" p.symbols)) ∧
      ∀ {σ : Type} (s s₀ : Session σ), s.list settings = (s₀, .ok ()) →
        s₀.traders.map (·.listing.pair) = found ∧
        (settings.SymbolsApart → s₀.traders.Pairwise fun t t' =>
          t.listing.pair.venueSymbol ≠ t'.listing.pair.venueSymbol) ∧
        (settings.NamesApart → (s₀.traders.Pairwise fun t t' => t.name ≠ t'.name) ∧
          ∀ moves s log, s₀.history moves = (s, log) → ∀ t ∈ s₀.traders,
            (∀ height refreshed outcomes,
              .ended (.ok (.processed height refreshed outcomes)) ∈ log →
              ∃ o, outcomes.filter (·.pair = t.name) = [⟨t.name, o⟩]) ∧
            (tradeHeights t.name log).Pairwise (· < ·)) := by
  have valid := Settings.valid_of_parse accepted
  obtain ⟨found, known⟩ := valid.pairs_known
  obtain ⟨symbols, unique⟩ := Settings.symbols_of_pairs known
  refine ⟨found, known, symbols, fun p among q among' => ?_, fun s s₀ listed => ?_⟩
  · have same : p = q ↔ p.symbols = q.symbols :=
      ⟨congrArg Pair.symbols, unique p among q among'⟩
    rw [same]
    exact ⟨Pair.name_eq_iff, Pair.venueSymbol_eq_iff⟩
  · have traded := (pairs_of_list listed).1
    obtain rfl := Except.ok.inj (traded.symm.trans known)
    refine ⟨rfl, fun apart => ?_, fun apart => ?_⟩
    · have books := (Settings.symbolsApart_iff known).mp apart
      rwa [List.pairwise_map] at books
    · have names := (Settings.namesApart_iff known).mp apart
      rw [List.pairwise_map] at names
      refine ⟨names, ?_⟩
      rintro moves s log happened t among
      obtain ⟨rfl, rfl⟩ := Prod.mk.inj happened
      exact told_apart listed names valid.trade.cooldown_pos moves among

/-! ### Two documents -/

/-- A document that gives assets and pairs. -/
def pairsText (assets pairs : String) : String :=
  "chain = [\"osmo1trader\", \"uusdc\"]\nassets = " ++ assets ++ "\npairs = " ++ pairs ++ "\n"

/-- Two pairs with one base, by symbols without slashes. -/
def apartSettings : Settings :=
  { twoPairs with chain := { accountAddress := "osmo1trader", usdDenom := "uusdc" } }

/-- The document is accepted, and the two pairs have different display names and books. -/
theorem pairs_apart_of_two_pairs :
    Settings.parse (pairsText
        "[[\"OSMO\", \"uosmo\", 6], [\"EURC\", \"ueurc\", 6], [\"USDC\", \"uusdc\", 6]]"
        "[[\"OSMO\", \"USDC\"], [\"OSMO\", \"EURC\"]]") = .ok apartSettings ∧
      apartSettings.NamesApart ∧ ∃ s₀, slowStart.list apartSettings = (s₀, .ok ()) ∧
        (s₀.traders.Pairwise fun t t' => t.name ≠ t'.name) ∧ ∀ t ∈ s₀.traders,
          (tradeHeights t.name (s₀.history (wholeBlock 0 4 ⟨100, [1]⟩)).2).Pairwise (· < ·) := by
  obtain ⟨_, accepted, rfl⟩ := exists_eq_ok (x := Settings.parse (pairsText
      "[[\"OSMO\", \"uosmo\", 6], [\"EURC\", \"ueurc\", 6], [\"USDC\", \"uusdc\", 6]]"
      "[[\"OSMO\", \"USDC\"], [\"OSMO\", \"EURC\"]]"))
    (P := (· = apartSettings)) (by decide +kernel)
  have apart : apartSettings.NamesApart :=
    Settings.namesApart_of_no_slash (by decide) (by decide)
  have listed : slowStart.list apartSettings = (_, .ok ()) := rfl
  obtain ⟨found, -, -, -, sessions⟩ := pairs_apart accepted
  obtain ⟨-, -, named⟩ := sessions _ _ listed
  obtain ⟨names, histories⟩ := named apart
  exact ⟨accepted, apart, _, listed, names, fun t among => (histories _ _ _ rfl t among).2⟩

/-- Two pairs of four assets, with slashes in their symbols. -/
def twinSettings : Settings where
  chain := { accountAddress := "osmo1trader", usdDenom := "uusdc" }
  assets := [⟨"A", "ua", some 6, none⟩, ⟨"/B", "usb", some 6, none⟩, ⟨"A/", "uas", some 6, none⟩,
    ⟨"B", "ub", some 6, none⟩]
  pairSymbols := [⟨"A", "/B"⟩, ⟨"A/", "B"⟩]

/-- A network on which messages to contracts take some time, the longer the more was sent. -/
def twinNetwork : Network (List String) where
  waits
    | .execute _ _, w => [w.length]
    | _, _ => []
  answer
    | .orderBook _ _, w => (w, .ok ⟨1, "book"⟩)
    | .venueBalances, w => (w, .ok (.ofList [("B", .ofWord 1000 0), ("/B", .ofWord 1000 0)]))
    | .chainBalances _, w =>
      (w, .ok [⟨"ua", .ofWord 30000000 0⟩, ⟨"uas", .ofWord 30000000 0⟩])
    | .price _ _, w => (w, .ok .one)
    | c, w => slowNetwork.answer c w
  limitSecs := 10

/-- A session around it, with the one book of both pairs. -/
def twinStart : Session (List String) :=
  (idle twinNetwork []).withShelf
    (.ofList [("A/B", ⟨"A/B", [], [⟨.ofWord 15 1, .ofWord 100 0⟩]⟩)])

/-- Different entries are called the same and share a book. While the claims of the first are under
way the second trades as well, so that their one name trades twice in a block. -/
theorem pairs_not_apart :
    Settings.parse (pairsText
        "[[\"A\", \"ua\", 6], [\"/B\", \"usb\", 6], [\"A/\", \"uas\", 6], [\"B\", \"ub\", 6]]"
        "[[\"A\", \"/B\"], [\"A/\", \"B\"]]") = .ok twinSettings ∧
      twinSettings.pairSymbols.Nodup ∧ ∃ p q s₀ s log,
        twinSettings.pairs = .ok [p, q] ∧ p.name = q.name ∧ p.venueSymbol = q.venueSymbol ∧
        twinStart.list twinSettings = (s₀, .ok ()) ∧
        s₀.history (wholeBlock 0 9 ⟨100, [1]⟩) = (s, log) ∧ (∃ o ∈ log, o.returns) ∧
        s.flights.isEmpty ∧ s.scene.world.count "A/B" = 2 := by
  obtain ⟨_, accepted, rfl⟩ := exists_eq_ok (x := Settings.parse (pairsText
      "[[\"A\", \"ua\", 6], [\"/B\", \"usb\", 6], [\"A/\", \"uas\", 6], [\"B\", \"ub\", 6]]"
      "[[\"A\", \"/B\"], [\"A/\", \"B\"]]"))
    (P := (· = twinSettings)) (by decide +kernel)
  exact ⟨accepted, by decide, ⟨⟨"A", "ua", some 6, none⟩, ⟨"/B", "usb", some 6, none⟩⟩,
    ⟨⟨"A/", "uas", some 6, none⟩, ⟨"B", "ub", some 6, none⟩⟩, _, _, _, rfl, by decide, by decide,
    rfl, rfl, by decide +kernel⟩

end CrossBook.Engine.Session
