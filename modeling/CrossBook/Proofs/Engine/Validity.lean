import CrossBook.Proofs.Engine.Logs
import CrossBook.Proofs.Engine.Upholding
import CrossBook.Proofs.Trade.Severity

/-!
# Cycles find no state that cannot be

The one state that cannot be which a cycle could find is an order on the wrong side of a book. The
orders of a pool are sorted when they are read, and those that cannot be sorted are not stored. So
no cycle unwinds for such a state; all errors that it meets are reported.

A cycle upholds this as a program, beside whatever fills the stores in no other way. Here it is told
of one run of a cycle; the same lemma tells it of the blocks of a session, where cycles run side by
side.

## Main definitions

* `Engine.Stores.Filled` — all orders that are stored were sorted
* `Engine.Trader.facing` — the orders that are traded against in a direction

## Main results

* `Engine.Stores.Filled.settle` — stores are filled by reading pools
* `Engine.Trader.upholds_attempt` — no failure of an attempt says that the state cannot be
* `Engine.Trader.upholds_cycle` — no ending of a cycle does
* `Engine.Trader.cycle_valid` — a cycle does not unwind for a state that cannot be
-/

namespace CrossBook.Engine

open Trade

/-! ### Stored orders -/

/-- The orders of every pool that is stored were sorted into sides. -/
def Stores.Filled (s : Stores) : Prop :=
  ∀ pool b, s.pools.get? pool = some b →
    ∃ height orders, Chain.RestingBook.ofOrders pool height orders = .ok b

theorem restingOrders_eq_ok_iff {pool height : Nat} {orders : List Chain.Order}
    {b : Chain.RestingBook} : restingOrders pool height orders = .ok b ↔
      Chain.RestingBook.ofOrders pool height orders = .ok b := by
  unfold restingOrders
  cases Chain.RestingBook.ofOrders pool height orders <;> simp

/-- Orders cannot be sorted when the tag of one of them names no side. -/
theorem restingOrders_eq_error {pool height : Nat} {orders : List Chain.Order} {e : Error}
    (h : restingOrders pool height orders = .error e) :
    ∃ o ∈ orders, Side.ofTag? o.tag = none ∧ e = .domain (.unknownDirection o.tag) := by
  unfold restingOrders at h
  cases sorted : Chain.RestingBook.ofOrders pool height orders with
  | ok b => simp [sorted] at h
  | error e' =>
    simp only [sorted, Except.error.injEq] at h
    obtain ⟨before, o, after, rfl, -, failed⟩ := Chain.RestingBook.ofOrders_eq_error_iff.mp sorted
    obtain ⟨untold, rfl⟩ := Chain.Order.side_eq_error_iff.mp failed
    exact ⟨o, by simp, untold, h.symm⟩

/-- Orders one of which has a tag that names no side cannot be sorted. -/
theorem exists_restingOrders_eq_error {orders : List Chain.Order} {o : Chain.Order}
    (among : o ∈ orders) (untold : Side.ofTag? o.tag = none) (pool height : Nat) :
    ∃ e : Error, e.severity = .invalidState ∧ restingOrders pool height orders = .error e := by
  cases sorted : restingOrders pool height orders with
  | error e =>
    obtain ⟨o', -, -, rfl⟩ := restingOrders_eq_error sorted
    exact ⟨_, rfl, rfl⟩
  | ok b =>
    obtain ⟨sided, perm⟩ := Chain.RestingBook.ofOrders_spec (restingOrders_eq_ok_iff.mp sorted)
    rcases List.mem_append.mp (perm.mem_iff.mpr among) with bid | ask
    · cases untold.symm.trans (Chain.Order.side_eq_ok_iff.mp (sided.bids o bid))
    · cases untold.symm.trans (Chain.Order.side_eq_ok_iff.mp (sided.asks o ask))

namespace Stores

variable {s : Stores} {pool height : Nat} {b : Chain.RestingBook} {refreshed : List Nat}
  {loads : List Load}

theorem Filled.sided (h : s.Filled) (stored : s.pools.get? pool = some b) : b.Sided := by
  obtain ⟨height, orders, sorted⟩ := h pool b stored
  exact (Chain.RestingBook.ofOrders_spec sorted).1

theorem filled_ofShelf (shelf : Venue.Shelf) : (ofShelf shelf).Filled :=
  fun _ _ stored => nomatch stored

theorem Filled.putPool (h : s.Filled) {orders : List Chain.Order}
    (sorted : restingOrders pool height orders = .ok b) : (s.putPool b).Filled := by
  intro pool' b' stored
  obtain rfl := (restingOrders_eq_ok sorted).1
  by_cases same : pool' = b.pool
  · subst same
    obtain rfl := Option.some.inj ((Table.get?_insert_self _ _ _).symm.trans stored)
    exact ⟨height, orders, restingOrders_eq_ok_iff.mp sorted⟩
  · exact h pool' b' ((Table.get?_insert_of_ne _ same _).symm.trans stored)

/-- Stores stay filled when pools are taken in, whatever became of reading them. -/
theorem Filled.settle (h : s.Filled)
    (reads : ∀ l ∈ loads, ∃ (a : OrderBookAddress) (height : Nat), a.Reads height l) :
    (s.settle refreshed loads).1.Filled := by
  induction loads generalizing s refreshed with
  | nil => exact h
  | cons l loads ih =>
    obtain ⟨⟨a, height, first⟩, others⟩ := List.forall_mem_cons.mp reads
    rw [Stores.settle]
    cases result : l.result with
    | error e =>
      dsimp only
      split_ifs
      · exact h
      · exact ih h others
    | ok b =>
      refine ih ?_ others
      cases first with
      | untold e => cases result
      | told ticks results => exact h.putPool result

/-- A pool whose orders cannot be sorted is never taken in: the block unwinds. -/
theorem exists_settle_error {l : Load} (among : l ∈ loads) {e : Error} (failed : l.result = .error e)
    (invalid : e.severity = .invalidState) : ∃ a, (s.settle refreshed loads).2 = .error a := by
  rcases settled : s.settle refreshed loads with ⟨stores, a | all⟩
  · exact ⟨a, rfl⟩
  · have taken := takeWhile_of_settle settled
    rw [List.takeWhile_eq_self_iff] at taken
    simpa [Load.unwinds, failed, invalid] using taken l among

end Stores

/-! ### Decisions -/

theorem tame_of_plain {α : Type} {e : Error} (plain : e.Plain) :
    Tame (.error (.error e) : Except Failure α) :=
  tame_report_iff.mpr fun invalid => nomatch invalid.symm.trans plain.severity_eq

namespace Trader

variable {t : Trader} {height n : Nat}

theorem tame_balances (venue : Table String Decimal) (coins : List Coin) :
    Tame (t.balances venue coins) := by
  simp [balances]

theorem tame_nativeBook (b : Venue.Book) : Tame (liftDomain (t.nativeBook b)) := by
  rw [nativeBook, liftDomain_bind]
  exact tame_bind.mpr ⟨tame_liftDomain_orError rfl, fun _ _ => tame_liftDomain_orError rfl⟩

/-- The orders that are traded against in a direction. -/
def facing (d : Direction) (b : Chain.RestingBook) : List Chain.Order :=
  match d with
  | .chainBid => b.bids
  | .venueBid => b.asks

theorem side_of_mem_facing {d : Direction} {b : Chain.RestingBook} (sided : b.Sided) :
    ∀ o ∈ facing d b, o.side = .ok d.chainSide := by
  cases d with
  | chainBid => exact sided.bids
  | venueBid => exact sided.asks

/-- A plan is sized over the orders that are traded against. -/
theorem exists_sized (t : Trader) (d : Direction) (native : Venue.Book) (b : Chain.RestingBook) :
    ∃ levels, t.sized d native b = Plan.size t.listing.units d levels (facing d b) := by
  cases d <;> exact ⟨_, rfl⟩

theorem tame_sized {d : Direction} {b : Chain.RestingBook} (sided : b.Sided) (native : Venue.Book) :
    Tame (t.sized d native b) := by
  obtain ⟨levels, same⟩ := t.exists_sized d native b
  rw [same]
  exact Plan.tame_size (side_of_mem_facing sided) levels

theorem tame_prospect {s : Stores} (filled : s.Filled) (venue : Table String Decimal)
    (coins : List Coin) : Tame (t.prospect s venue coins) := by
  unfold prospect
  dsimp only
  refine tame_bind.mpr ⟨tame_balances venue coins, fun balances _ => ?_⟩
  refine tame_bind.mpr ⟨tame_orError nofun, fun book _ => ?_⟩
  refine tame_bind.mpr ⟨tame_orError nofun, fun resting stored => ?_⟩
  refine tame_bind.mpr ⟨Opportunity.tame_between _ _ _ _, fun found _ => ?_⟩
  cases found with
  | none => exact tame_ok _
  | some o =>
    have sided := filled.sided (orError_eq_ok.mp stored)
    refine tame_bind.mpr ⟨tame_nativeBook book, fun native _ => ?_⟩
    refine tame_bind.mpr ⟨tame_sized sided native, fun plan _ => ?_⟩
    split_ifs
    · exact tame_ok _
    · exact tame_bind.mpr ⟨Plan.tame_fund _ _ _, fun funded _ => tame_ok _⟩

theorem tame_minimumBase (prices : PriceSheet) : Tame (t.minimumBase prices) := by
  unfold minimumBase
  split <;> simp

theorem tame_shortfall (p : Plan) (prices : PriceSheet) : Tame (t.shortfall p prices) := by
  refine tame_bind.mpr ⟨tame_minimumBase prices, fun minimum _ => ?_⟩
  split_ifs
  · split <;> exact tame_ok _
  · exact tame_ok _

theorem tame_venueOrder (p : Plan) : Tame (t.venueOrder p) := by
  unfold venueOrder
  dsimp only
  split <;> simp

theorem tame_verdict (p : Plan) (prices : PriceSheet) (simulation : SwapSimulation) :
    Tame (t.verdict p prices simulation) := by
  refine tame_bind.mpr ⟨by simp, fun a _ => tame_bind.mpr ⟨a.tame_cost, fun cost _ => ?_⟩⟩
  split_ifs
  · exact tame_bind.mpr ⟨tame_venueOrder p, fun order _ => tame_ok _⟩
  · exact tame_ok _

/-! ### Attempts

The lemmas follow the course of an attempt from the end to the beginning. -/

open Program

theorem upholds_tryClose (p : Plan) (legs : Legs) (claims : ClaimFlush) :
    (t.tryClose height p legs claims (n := n)).Upholds Stores.Filled Tame := by
  rw [tryClose]
  cases rests : t.cooldownUntil height with
  | error f =>
    obtain rfl := cooldownUntil_eq_error rests
    exact tame_error_iff.mpr id
  | ok cooldown => exact ⟨fun _ filled => filled, tame_ok _⟩

theorem upholds_tryClaim (p : Plan) (legs : Legs) :
    (t.tryClaim height p legs).Upholds Stores.Filled Tame := by
  refine upholds_look_iff.mpr fun s _ => ⟨fun _ filled => filled, ?_⟩
  split_ifs
  · exact upholds_tryClose p legs _
  · exact upholds_call_iff.mpr fun r _ => upholds_tryClose p legs _

theorem upholds_trySend (p : Plan) (order : MarketOrder) (swap : SwapRequest) :
    (t.trySend height p order swap).Upholds Stores.Filled Tame := by
  refine upholds_ask_iff.mpr ?_
  rintro (_ | ⟨venue, _ | ⟨chain, _ | _⟩⟩) -
  exact upholds_tryClaim p _

theorem upholds_tryAct (p : Plan) {verdict : Except Failure Verdict} (tame : Tame verdict) :
    (t.tryAct height p verdict).Upholds Stores.Filled Tame := by
  rcases verdict with f | _ | _
  · exact tame_error_iff.mpr (tame_error_iff.mp tame)
  · exact tame_ok _
  · exact upholds_trySend p _ _

theorem upholds_trySimulate (p : Plan) (prices : PriceSheet)
    {shortfall : Except Failure (Option (Decimal × Decimal))} (tame : Tame shortfall) :
    (t.trySimulate height p prices shortfall).Upholds Stores.Filled Tame := by
  rcases shortfall with f | _ | _
  · exact tame_error_iff.mpr (tame_error_iff.mp tame)
  · refine upholds_call_iff.mpr ?_
    rintro (e | simulation) plain
    · exact tame_of_plain (plain e rfl)
    · exact upholds_tryAct p (tame_verdict p prices simulation)
  · exact tame_ok _

theorem upholds_tryPrices (p : Plan) : (t.tryPrices height p).Upholds Stores.Filled Tame := by
  refine upholds_ask_iff.mpr ?_
  rintro (e | ⟨_ | ⟨base, _ | ⟨quote, _ | ⟨fee, _ | _⟩⟩⟩⟩) plain
  · exact tame_of_plain (plain e rfl)
  · exact upholds_trySimulate p _ (tame_shortfall p _)

theorem upholds_tryTakeUp {prospect : Except Failure Prospect} (tame : Tame prospect) :
    (t.tryTakeUp height prospect).Upholds Stores.Filled Tame := by
  rcases prospect with f | _ | _ | p
  · exact tame_error_iff.mpr (tame_error_iff.mp tame)
  · exact tame_ok _
  · exact tame_ok _
  · refine upholds_change_iff.mpr ⟨fun _ filled => filled, ?_⟩
    split_ifs
    · exact tame_ok _
    · exact upholds_tryPrices p

theorem upholds_tryCompare (venue : Table String Decimal) (coins : List Coin) :
    (t.tryCompare height venue coins).Upholds Stores.Filled Tame := by
  rw [tryCompare, upholds_look_iff]
  intro s filled
  have tame : Tame (t.prospect s venue coins) := tame_prospect filled venue coins
  -- The prospect itself would be unfolded in search of the course it leads to.
  generalize t.prospect s venue coins = prospect at tame ⊢
  exact upholds_tryTakeUp tame

/-- No failure of an attempt says that the state cannot be. -/
theorem upholds_attempt (t : Trader) (height : Nat) :
    (t.attempt height).Upholds Stores.Filled Tame := by
  unfold attempt
  rw [upholds_look_iff]
  intro s filled
  cases s.cooldowns.blockedUntil t.name height with
  | some blocked => exact tame_ok _
  | none =>
    refine upholds_ask_iff.mpr ?_
    rintro (e | ⟨_ | ⟨venue, _ | ⟨coins, _ | _⟩⟩⟩) plain
    · exact tame_of_plain (plain e rfl)
    · exact @upholds_tryCompare t height venue coins

/-! ### Cycles -/

/-- What becomes of an attempt: every error is reported, and an abort unwinds as it is. -/
theorem endingOf_of_tame (t : Trader) (height : Nat) {result : Attempt} (tame : Tame result) :
    match result with
    | .ok o => t.endingOf height result = .ok o
    | .error (.error e) => e.severity ≠ .invalidState ∧
        t.endingOf height result = .ok (.aborted e.severity e.message)
    | .error (.abort a) => (∀ text, a ≠ .invalidState text) ∧
        t.endingOf height result = .error a := by
  rcases result with (e | a) | o
  · have valid := tame_report_iff.mp tame
    exact ⟨valid, if_neg valid⟩
  · exact ⟨tame_abort_iff.mp tame, rfl⟩
  · rfl

/-- An ending that is concluded from such an attempt does not unwind for a state that cannot be. -/
theorem endingOf_ne_invalidState (t : Trader) (height : Nat) {result : Attempt}
    (tame : Tame result) (text : String) :
    t.endingOf height result ≠ .error (.invalidState text) := by
  have concluded := endingOf_of_tame t height tame
  rcases result with (e | a) | o
  · rw [concluded.2]
    rintro ⟨⟩
  · rw [concluded.2]
    exact fun same => concluded.1 text (Except.error.inj same)
  · rw [concluded]
    rintro ⟨⟩

theorem upholds_conclude {result : Attempt} (tame : Tame result) :
    (t.conclude height result n).Upholds Stores.Filled
      fun ending => ∀ text, ending ≠ .error (.invalidState text) := by
  have valid := endingOf_ne_invalidState t height tame
  rcases result with (e | a) | o
  · rw [endingOf, if_neg (tame_report_iff.mp tame)] at valid
    rw [conclude, fail, if_neg (tame_report_iff.mp tame)]
    exact ⟨fun _ filled => filled, valid⟩
  · exact valid
  · cases o with
    | executed e => exact valid
    | coolingDown | skipped | aborted => exact ⟨fun _ filled => filled, valid⟩

theorem upholds_cycle (t : Trader) (height : Nat) :
    (t.cycle height).Upholds Stores.Filled
      fun ending => ∀ text, ending ≠ .error (.invalidState text) := by
  rw [cycle_eq]
  exact (t.upholds_attempt height).andThen fun result m tame => upholds_conclude tame

/-- In stores that are filled by reading pools, among surroundings that fill them in no other way,
and with calls that fail as calls do, no cycle of any trader unwinds for a state that cannot be. It
ends as its attempt does: an error is reported, and only an abort of another kind unwinds. A plan is
only ever sized over stored orders of the side that its direction trades against. That is so since
pools are sorted when they are read: a block that reads an order whose tag names no side unwinds,
and the stores stay filled. -/
theorem cycle_valid {surroundings : Surroundings} {s s' : Stores} {trace : List Exchange}
    {ending : Ending} (filled : s.Filled)
    (kept : ∀ s₁ s₂, surroundings.Meanwhile s₁ s₂ → s₁.Filled → s₂.Filled)
    (plain : ∀ e ∈ trace, e.Plain)
    (run : (t.cycle height).Runs surroundings s trace ending s') :
    (∀ text, ending ≠ .error (.invalidState text)) ∧
    (∃ result s₁, (t.attempt height).Runs surroundings s trace result s₁ ∧
      match result with
      | .ok o => ending = .ok o
      | .error (.error e) =>
        e.severity ≠ .invalidState ∧ ending = .ok (.aborted e.severity e.message)
      | .error (.abort a) => (∀ text, a ≠ .invalidState text) ∧ ending = .error a) ∧
    (∀ stores : Stores, stores.Filled → ∀ pool b, stores.pools.get? pool = some b →
      ∀ d native, ∃ levels,
        t.sized d native b = Plan.size t.listing.units d levels (facing d b) ∧
        ∀ o ∈ facing d b, o.side = .ok d.chainSide) ∧
    (∀ (stores : Stores) (refreshed : List Nat) (loads : List Load), stores.Filled →
      (∀ l ∈ loads, ∃ (a : OrderBookAddress) (height : Nat), a.Reads height l) →
      (stores.settle refreshed loads).1.Filled ∧
      ∀ l ∈ loads, ∀ height orders, l.result = restingOrders l.pool height orders →
        (∃ o ∈ orders, Side.ofTag? o.tag = none) →
          ∃ a, (stores.settle refreshed loads).2 = .error a) := by
  have valid := ((t.upholds_cycle height).of_runs run kept plain filled).1
  obtain ⟨result, s₁, attempted, rfl⟩ := attempt_of_cycle run
  have tame := ((t.upholds_attempt height).of_runs attempted kept plain filled).1
  refine ⟨valid, ⟨result, s₁, attempted, ?_⟩,
    fun stores filled pool b stored d native => ?_, fun stores refreshed loads filled reads => ?_⟩
  · have concluded := endingOf_of_tame t height tame
    rcases result with (e | a) | o <;> exact concluded
  · obtain ⟨levels, same⟩ := t.exists_sized d native b
    exact ⟨levels, same, side_of_mem_facing (filled.sided stored)⟩
  · refine ⟨filled.settle reads, ?_⟩
    rintro l among height orders told ⟨o, mem, untold⟩
    obtain ⟨e, invalid, failed⟩ := exists_restingOrders_eq_error mem untold l.pool height
    exact Stores.exists_settle_error among (told.trans failed) invalid

/-- The sample stores are what reading the pool of the sample trader leaves. -/
theorem filled_sampleStores : sampleStores.Filled := by
  have sorted : restingOrders 1 100 [.fresh 1000000 7 "bid" "maker" (.ofWord 80000000 0)] =
      .ok ⟨1, 100, [.fresh 1000000 7 "bid" "maker" (.ofWord 80000000 0)], []⟩ := by
    decide +kernel
  exact (Stores.filled_ofShelf sampleStores.shelf).putPool sorted

/-- What the account of the sample trader holds on the venue. -/
def sampleFunds : Table String Decimal := .ofList [("USDC", .ofWord 1000 0)]

/-- What it holds on the chain. -/
def sampleCoins : List Coin := [⟨"uosmo", .ofWord 30000000 0⟩]

/-- A plan was offered, and it is not empty. -/
def isWorthwhile : Prospect → Bool
  | .funded p => !decide p.IsEmpty
  | _ => false

/-- The exchange in which a cycle fetches prices that cannot be read. -/
def garbled (t : Trader) : Exchange :=
  let calls := [t.priceCall t.listing.pair.base.denom, t.priceCall t.listing.pair.quote.denom,
    t.priceCall t.settings.chain.feeDenom]
  ⟨calls, .untilFailure, .error .json, calls⟩

/-- A trade that is sized over the bid on the chain comes to nothing, as its prices cannot be
read. -/
theorem sampleTrader_aborts : ∃ trace s', (∀ e ∈ trace, e.Plain) ∧
    (sampleTrader.cycle 100).Runs stillness sampleStores trace
      (.ok (.aborted .transient "JSON parsing error")) s' := by
  obtain ⟨o, offer, worthwhile⟩ := exists_eq_ok (P := fun o => isWorthwhile o)
    (x := sampleTrader.prospect sampleStores sampleFunds sampleCoins) (by decide +kernel)
  cases o with
  | noOpportunity | noFill => cases worthwhile
  | funded p =>
    have nonempty : ¬ p.IsEmpty := by simpa [isWorthwhile] using worthwhile
    have possible (e : Exchange) (all : e.reached = e.calls) : e.Possible stillness :=
      ⟨fun c => by rw [all], fun c among _ => all ▸ among⟩
    let balances := sampleTrader.fetched sampleFunds sampleCoins
      [.venueBalances, .chainBalances sampleTrader.settings.chain.accountAddress]
    refine ⟨[balances, sampleTrader.garbled], (sampleStores.modifyLedger 0 fun l =>
      l.record p.claims).modifyLedger 0 Ledger.discard, ?_, ?_⟩
    · refine List.forall_mem_cons.mpr ⟨?_, List.forall_mem_singleton.mpr ?_⟩
      · rintro e ⟨⟩
      · rintro e ⟨⟩
        exact .json
    · refine .look (.ask balances (possible balances rfl) rfl (runs_compare_iff.mpr ?_))
      rw [offer, takeUp]
      refine .change ?_
      rw [if_neg nonempty]
      exact .ask sampleTrader.garbled (possible _ rfl) rfl (.change (.done _ _))

/-- So the cycle has reported the error. The orders it was sized over are bids. -/
theorem cycle_valid_of_garbled_prices : ∃ trace s' b,
    sampleStores.Filled ∧
    (∀ s₁ s₂, stillness.Meanwhile s₁ s₂ → s₁.Filled → s₂.Filled) ∧ (∀ e ∈ trace, e.Plain) ∧
    (sampleTrader.cycle 100).Runs stillness sampleStores trace
      (.ok (.aborted .transient "JSON parsing error")) s' ∧
    (∃ result s₁, (sampleTrader.attempt 100).Runs stillness sampleStores trace result s₁) ∧
    sampleStores.pools.get? 1 = some b ∧ facing .chainBid b ≠ [] ∧
    ∀ o ∈ facing .chainBid b, o.side = .ok Direction.chainBid.chainSide := by
  have kept : ∀ s₁ s₂, stillness.Meanwhile s₁ s₂ → s₁.Filled → s₂.Filled := by
    rintro s₁ _ rfl filled
    exact filled
  have stored : sampleStores.pools.get? 1 = some _ := rfl
  obtain ⟨trace, s', plain, run⟩ := sampleTrader_aborts
  obtain ⟨-, ⟨result, s₁, attempted, -⟩, sized, -⟩ := cycle_valid filled_sampleStores kept plain run
  obtain ⟨-, -, sided⟩ := sized sampleStores filled_sampleStores 1 _ stored .chainBid (.empty "")
  exact ⟨trace, s', _, filled_sampleStores, kept, plain, run, ⟨result, s₁, attempted⟩, stored,
    List.cons_ne_nil _ _, sided⟩

end Trader

end CrossBook.Engine
