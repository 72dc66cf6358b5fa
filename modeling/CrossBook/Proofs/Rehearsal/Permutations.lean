import CrossBook.Proofs.Engine.Relistings
import CrossBook.Proofs.Rehearsal.World

/-!
# Rehearsals of pairs in another order

What a rehearsal tells of blocks does not depend on the order in which pairs are given, except for
the numbers of orders and transactions, as long as no block unwinds. A block that unwinds takes in
the pools that were read before it did, and those depend on the order.

## Main results

* `Rehearsal.reports_of_perm` — rehearsals tell the same whatever the order of the pairs
* `Rehearsal.reports_differ_of_unwinding` — but not when a block has unwound
-/

namespace CrossBook.Rehearsal

open Engine Session

/-- Pairs with different display names are rehearsed, of which those that share a pool share its
contract. They are given in another order. Then they are listed as well; and whatever is done
between blocks, as long as it is done without regard to what was sent, and whatever blocks are
processed, reports are the same but for the numbers of orders and transactions, unless a block
unwinds. -/
theorem reports_of_perm {limitSecs : Nat} {s s₀ : Session World} {settings : Settings}
    {pairs : List PairSymbols} {acts : List (Act World)} (rehearsed : s.network = network limitSecs)
    (listed : s.list settings = (s₀, .ok ())) (apart : settings.NamesApart)
    (single : ∀ t ∈ s₀.traders, ∀ t' ∈ s₀.traders,
      t.listing.address.pool = t'.listing.address.pool →
      t.listing.address.contract = t'.listing.address.contract)
    (perm : pairs.Perm settings.pairSymbols) (blind : ∀ a ∈ acts, a.Blind World.blank)
    (returns : ∀ a ∈ (s₀.performAll acts).2, a.Returns) :
    ∃ s₁, s.list { settings with pairSymbols := pairs } = (s₁, .ok ()) ∧
      (s₁.performAll acts).2.map Account.unnumbered =
        (s₀.performAll acts).2.map Account.unnumbered := by
  have addresses : ∀ t ∈ s₀.traders, ∀ t' ∈ s₀.traders,
      t.listing.address.pool = t'.listing.address.pool → t.listing.address = t'.listing.address :=
    fun t among t' among' pool =>
      congrArg₂ OrderBookAddress.mk pool (single t among t' among' pool)
  exact accounts_of_perm (rehearsed ▸ impartial_network limitSecs) listed apart addresses perm.symm
    blind returns

/-! ### Two pairs -/

/-- The entries of two pairs the other way round. -/
def swappedEntries : List PairSymbols := [⟨"OSMO", "EURC"⟩, ⟨"OSMO", "USDC"⟩]

/-- An order for eighty tokens at a price of two. -/
def restingOrder (side : String) : CrossBook.Chain.Order :=
  .fresh 1000000 7 side "maker" (.ofWord 80000000 0)

/-- A world with a pool for each of two pairs, in which orders of some side rest. -/
def twoPools (side side' : String) : World where
  venue := { balances := .ofList [("USDC", .ofWord 1000 0), ("EURC", .ofWord 1000 0)] }
  chain := {
    books := .ofList [(("uosmo", "uusdc"), ⟨1, "book"⟩), (("uosmo", "ueurc"), ⟨2, "other"⟩)]
    ticks := .ofList [(1, [1000000]), (2, [1000000])]
    orders := [("book", restingOrder side), ("other", restingOrder side')]
    prices := .ofList [(("uosmo", "uusdc"), .one), (("uusdc", "uusdc"), .one),
      (("ueurc", "uusdc"), .one)]
    balances := .ofList [("osmo1trader", [⟨"uosmo", .ofWord 30000000 0⟩])]
    simulation := some ⟨.ofWord 60000000 0, 200000⟩ }

/-- A session around such a world. The venue sells both pairs at three halves. -/
def rehearsal (side side' : String) : Session World :=
  (idle (network 10) (twoPools side side')).withShelf (.ofList
    [("OSMOUSDC", ⟨"OSMOUSDC", [], [⟨.ofWord 15 1, .ofWord 100 0⟩]⟩),
      ("OSMOEURC", ⟨"OSMOEURC", [], [⟨.ofWord 15 1, .ofWord 100 0⟩]⟩)])

/-- The world with one price that takes some time. -/
def withSlowPrice (w : World) : World :=
  { w with faults := w.faults.insert "chain.price.ueurc" { delay := 40 } }

/-- A block in which both pairs trade; one that waits for a price when another one arrives; and two
that arrive at once. -/
def severalBlocks : List (Act World) :=
  [.block ⟨100, [1]⟩, .alter withSlowPrice, .overlap ⟨105, [1]⟩ ⟨106, [2]⟩,
    .follow [⟨110, []⟩, ⟨111, []⟩]]

/-- Both pairs trade thrice, whichever comes first. -/
theorem reports_of_perm_of_severalBlocks : ∃ s₀ s₁,
    (rehearsal "bid" "bid").list apartSettings = (s₀, .ok ()) ∧
    (rehearsal "bid" "bid").list { apartSettings with pairSymbols := swappedEntries } =
      (s₁, .ok ()) ∧
    (s₁.performAll severalBlocks).2.map Account.unnumbered =
      (s₀.performAll severalBlocks).2.map Account.unnumbered ∧
    (s₀.performAll severalBlocks).1.scene.world.venue.accepted = 6 := by
  have listed : (rehearsal "bid" "bid").list apartSettings = (_, .ok ()) := rfl
  have blind : ∀ a ∈ severalBlocks, a.Blind World.blank := by
    have slow : (Act.alter withSlowPrice).Blind World.blank :=
      fun w w' same => congrArg withSlowPrice same
    simpa [severalBlocks, Act.Blind] using slow
  obtain ⟨s₁, listed', same⟩ := reports_of_perm rfl listed
    (Settings.namesApart_of_no_slash (by decide) (by decide)) (by decide +kernel)
    (List.Perm.swap ..) blind (by decide +kernel)
  exact ⟨_, s₁, listed, listed', same, by decide +kernel⟩

/-- The orders of the second pool are withdrawn, and the first has one that has no side. -/
def exchangeOrders (w : World) : World :=
  { w with chain := (w.chain.putOrders 2 "other" []).putOrders 1 "book" [restingOrder "sideways"] }

/-- A block, and another one after orders were exchanged. -/
def blocksAround : List (Act World) := [.block ⟨100, []⟩, .alter exchangeOrders, .block ⟨101, []⟩]

/-- A block has returned, or it has unwound with orders it has read, which have no side. -/
def ReturnedOrMisread (r : Option (Except Abort Report)) : Prop :=
  Account.returned r ∨ ∃ pool ∈ [1, 2],
    r = some (.error (invalidOrders pool (.domain (.unknownDirection "sideways"))))

instance (r : Option (Except Abort Report)) : Decidable (ReturnedOrMisread r) :=
  inferInstanceAs (Decidable (_ ∨ _))

/-- The second of two pools has an order that has no side, and the block that reads both unwinds.
The first pool is taken in only where it comes first; there the next block leaves it alone, and
elsewhere it reads it and unwinds as well. No cycle has unwound, and still reports differ. -/
theorem reports_differ_of_unwinding : swappedEntries.Perm apartSettings.pairSymbols ∧
    apartSettings.NamesApart ∧ ∃ s₀ s₁,
      (rehearsal "bid" "sideways").list apartSettings = (s₀, .ok ()) ∧
      (rehearsal "bid" "sideways").list { apartSettings with pairSymbols := swappedEntries } =
        (s₁, .ok ()) ∧
      (∀ t ∈ s₀.traders, ∀ t' ∈ s₀.traders,
        t.listing.address.pool = t'.listing.address.pool →
        t.listing.address.contract = t'.listing.address.contract) ∧
      (∀ a ∈ blocksAround, a.Blind World.blank) ∧
      (∀ a ∈ (s₀.performAll blocksAround).2 ++ (s₁.performAll blocksAround).2,
        ∀ r ∈ a.reports, ReturnedOrMisread r) ∧
      (s₁.performAll blocksAround).2.map Account.unnumbered ≠
        (s₀.performAll blocksAround).2.map Account.unnumbered := by
  have blind : ∀ a ∈ blocksAround, a.Blind World.blank := by
    have exchange : (Act.alter exchangeOrders).Blind World.blank :=
      fun w w' same => congrArg exchangeOrders same
    simpa [blocksAround, Act.Blind] using exchange
  exact ⟨List.Perm.swap .., Settings.namesApart_of_no_slash (by decide) (by decide), _, _, rfl, rfl,
    by decide +kernel, blind, by decide +kernel, by decide +kernel⟩

end CrossBook.Rehearsal
