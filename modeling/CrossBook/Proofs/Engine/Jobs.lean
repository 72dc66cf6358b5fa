import CrossBook.Proofs.Engine.Contract
import CrossBook.Proofs.Engine.Cycle

/-!
# The jobs of a block

A block reads pools, and then runs the cycles of its pairs. Reading a pool changes nothing. A cycle
changes its own ledger and how long its own pair rests, and nothing else; when it does not unwind,
it leaves its ledger empty. So neither readings nor cycles disturb each other.

## Main definitions

* `Engine.OrderBookAddress.Reads` — what reading a pool can come to
* `Engine.Trader.Confined` — what a cycle leaves alone
* `Engine.readingPools`, `Engine.tradingPairs` — the duties of the two phases of a block
-/

namespace CrossBook.Engine

open Relation

variable {σ : Type} {net : Network σ} {height : Nat}

/-! ### Reading pools -/

/-- What reading a pool at a height can come to: its ticks are not told, or they are, and each of
them is answered in some way. -/
inductive OrderBookAddress.Reads (a : OrderBookAddress) (height : Nat) : Load → Prop where
  | untold (e : Error) : Reads a height ⟨a.pool, .error e⟩
  | told (ticks : List Int)
      (results : Answers Call.Result (ticks.map (Call.restingOrders a.contract))) :
      Reads a height ⟨a.pool, restingOrders a.pool height (ordersRead a.contract ticks results)⟩

theorem restingOrders_eq_ok {pool : Nat} {orders : List Chain.Order} {b : Chain.RestingBook}
    (h : restingOrders pool height orders = .ok b) : b.pool = pool ∧ b.height = height := by
  unfold restingOrders at h
  split at h
  · next sides =>
      obtain rfl := Except.ok.inj h
      obtain ⟨⟨bids, asks⟩, -, sides⟩ := bind_eq_ok.mp sides
      obtain rfl := Except.ok.inj sides
      exact ⟨rfl, rfl⟩
  · cases h

namespace OrderBookAddress

variable {a : OrderBookAddress} {l : Load}

theorem Reads.pool_eq (h : a.Reads height l) : l.pool = a.pool := by
  cases h <;> rfl

/-- The orders that were read are those of the pool, at the height of the block. -/
theorem Reads.book_eq (h : a.Reads height l) {b : Chain.RestingBook} (read : l.result = .ok b) :
    b.pool = a.pool ∧ b.height = height := by
  cases h with
  | untold e => cases read
  | told ticks results => exact restingOrders_eq_ok read

/-- Reading a pool relies on nothing and changes nothing. -/
def loadContract (a : OrderBookAddress) (height : Nat) : Contract Load where
  Relies _ _ := True
  Guarantees := Eq
  Ensures l _ := a.Reads height l
  relies_refl _ := trivial
  relies_trans _ _ := trivial
  guarantees_refl _ := rfl
  guarantees_trans := Eq.trans
  lasts reads _ := reads

theorem keeps_load (a : OrderBookAddress) (height : Nat) (s : Stores) :
    (a.load height).Keeps (a.loadContract height) s := by
  rintro (_ | ⟨e | ticks, _ | _⟩) s' -
  · exact .untold e
  · rintro results s'' -
    exact .told ticks results

end OrderBookAddress

/-- Pools are read at a height. -/
def readingPools (net : Network σ) (height : Nat) : Duties net OrderBookAddress Load where
  Holds a w s := w.Keeps (a.loadContract height) s
  Guarantees _ := Eq
  Ensures a l _ := a.Reads height l
  turn := Waiting.Keeps.run

/-- Pools are read side by side. -/
theorem readingPools_apart (jobs : List OrderBookAddress) :
    jobs.Pairwise (readingPools net height).Apart := by
  have spares (i j : OrderBookAddress) : (readingPools net height).Spares i j := by
    intro s s' same
    obtain rfl : s = s' := same
    exact ⟨fun _ => id, fun _ => id⟩
  exact List.pairwise_of_forall fun i j => ⟨spares i j, spares j i⟩

theorem serves_reading_launch {net : Network σ} (pools : List OrderBookAddress) (stores : Stores) :
    (Fleet.launch (pools.map fun a => a.load height)).Serves (readingPools net height) pools
      stores :=
  Fleet.serves_launch fun a _ _ _ _ => a.keeps_load height _

theorem serves_reading_lasts {net : Network σ} {height : Nat} {jobs : List OrderBookAddress}
    {fleet : Fleet Load} {stores stores' : Stores}
    (h : fleet.Serves (readingPools net height) jobs stores) :
    fleet.Serves (readingPools net height) jobs stores' :=
  h.lasts (fun _ _ _ keeps => keeps.lasts trivial) fun _ _ _ => id

/-- While pools are read nothing is changed. -/
theorem eq_of_reading {net : Network σ} {height : Nat} {jobs : List OrderBookAddress}
    {stores stores' : Stores}
    (h : ReflTransGen ((readingPools net height).Changes jobs) stores stores') :
    stores' = stores := by
  induction h with
  | refl => rfl
  | tail _ changes ih =>
    obtain ⟨a, -, same⟩ := changes
    exact (show _ = _ from same).symm.trans ih

/-! ### Trading pairs -/

namespace Trader

open Trade Program

variable {t : Trader} {s s' : Stores}

/-- Nothing is changed but the ledger of the trader and how long its pair rests. -/
structure Confined (t : Trader) (s s' : Stores) : Prop where
  shelf_eq : s'.shelf = s.shelf
  pools_eq : s'.pools = s.pools
  cooldown_eq : ∀ name ≠ t.name, s'.cooldowns.get? name = s.cooldowns.get? name
  ledger_eq : ∀ number ≠ t.ledger, s'.ledger number = s.ledger number

theorem Confined.refl (t : Trader) (s : Stores) : t.Confined s s :=
  ⟨rfl, rfl, fun _ _ => rfl, fun _ _ => rfl⟩

theorem Confined.trans {s'' : Stores} (h : t.Confined s s') (h' : t.Confined s' s'') :
    t.Confined s s'' where
  shelf_eq := h'.shelf_eq.trans h.shelf_eq
  pools_eq := h'.pools_eq.trans h.pools_eq
  cooldown_eq name other := (h'.cooldown_eq name other).trans (h.cooldown_eq name other)
  ledger_eq number other := (h'.ledger_eq number other).trans (h.ledger_eq number other)

theorem confined_modifyLedger (t : Trader) (f : Ledger → Ledger) (s : Stores) :
    t.Confined s (s.modifyLedger t.ledger f) where
  shelf_eq := rfl
  pools_eq := rfl
  cooldown_eq _ _ := rfl
  ledger_eq _ other := congrArg (·.getD Ledger.empty) (Table.get?_insert_of_ne _ other _)

theorem confined_rest (t : Trader) (until_ : Nat) (s : Stores) :
    t.Confined s (s.rest t.name until_) where
  shelf_eq := rfl
  pools_eq := rfl
  cooldown_eq _ other := Table.get?_insert_of_ne _ other _
  ledger_eq _ _ := rfl

/-- All that a cycle changes is of some kind: its ledger, and how long its pair rests after a
trade. -/
structure Covers (t : Trader) (height : Nat) (Kind : Stores → Stores → Prop) : Prop where
  ledger : ∀ f s, Kind s (s.modifyLedger t.ledger f)
  rest : ∀ s, Kind s (s.rest t.name (t.restsUntil height))

theorem covers_confined (t : Trader) (height : Nat) : t.Covers height t.Confined :=
  ⟨t.confined_modifyLedger, t.confined_rest _⟩

/-! The lemmas follow the course of a cycle from the end to the beginning. -/

section Changes

variable {Kind : Stores → Stores → Prop} (covers : t.Covers height Kind)

include covers

theorem changes_finish (o : Outcome) {n : Nat} : (t.finish o (n := n)).Changes Kind :=
  changes_change_iff.mpr ⟨covers.ledger _, changes_done _⟩

theorem changes_fail (f : Failure) {n : Nat} : (t.fail height f (n := n)).Changes Kind := by
  unfold fail
  split
  · exact changes_done _
  · split_ifs
    · exact changes_done _
    · exact changes_finish covers _

theorem changes_close (p : Plan) (legs : Legs) (flush : ClaimFlush) {n : Nat} :
    (t.close height p legs flush (n := n)).Changes Kind := by
  unfold close
  split
  · exact changes_fail covers _
  · next fits =>
      rw [cooldownUntil_eq_ok fits]
      exact changes_change_iff.mpr ⟨covers.rest, changes_done _⟩

theorem changes_claim (p : Plan) (legs : Legs) : (t.claim height p legs).Changes Kind := by
  refine changes_look_iff.mpr fun s => changes_change_iff.mpr ⟨covers.ledger _, ?_⟩
  split_ifs
  · exact changes_close covers p legs _
  · exact changes_call_iff.mpr fun r => changes_close covers p legs _

theorem changes_send (p : Plan) (order : MarketOrder) (swap : SwapRequest) :
    (t.send height p order swap).Changes Kind := by
  refine changes_ask_iff.mpr ?_
  rintro (_ | ⟨venue, _ | ⟨chain, _ | _⟩⟩)
  exact changes_claim covers p _

theorem changes_weigh (p : Plan) (prices : PriceSheet) (simulation : SwapSimulation) :
    (t.weigh height p prices simulation).Changes Kind := by
  rw [weigh]
  rcases t.verdict p prices simulation with f | _ | _ <;> rw [act]
  · exact changes_fail covers f
  · exact changes_finish covers _
  · exact changes_send covers p _ _

theorem changes_simulate (p : Plan) (prices : PriceSheet) :
    (t.simulate height p prices).Changes Kind := by
  rw [simulate]
  rcases t.shortfall p prices with f | _ | _ <;> rw [simulateUnless]
  · exact changes_fail covers f
  · refine changes_call_iff.mpr ?_
    rintro (e | simulation)
    · exact changes_fail covers (.error e)
    · exact changes_weigh covers p prices simulation
  · exact changes_finish covers _

theorem changes_fetchPrices (p : Plan) : (t.fetchPrices height p).Changes Kind := by
  refine changes_ask_iff.mpr ?_
  rintro (e | ⟨_ | ⟨base, _ | ⟨quote, _ | ⟨fee, _ | _⟩⟩⟩⟩)
  · exact changes_fail covers (.error e)
  · exact changes_simulate covers p _

theorem changes_compare (venue : Table String Decimal) (coins : List Coin) :
    (t.compare height venue coins).Changes Kind := by
  rw [Trader.compare, changes_look_iff]
  intro s
  rcases t.prospect s venue coins with f | _ | _ | p <;> rw [takeUp]
  · exact changes_fail covers f
  · exact changes_finish covers _
  · exact changes_finish covers _
  · refine changes_change_iff.mpr ⟨covers.ledger _, ?_⟩
    split_ifs
    · exact changes_finish covers _
    · exact changes_fetchPrices covers p

/-- Every change a cycle makes is of a kind that covers them. -/
theorem changes_cycle : (t.cycle height).Changes Kind := by
  refine changes_look_iff.mpr fun s => ?_
  rcases s.cooldowns.blockedUntil t.name height with _ | blocked
  · refine changes_ask_iff.mpr ?_
    rintro (e | ⟨_ | ⟨venue, _ | ⟨coins, _ | _⟩⟩⟩)
    · exact changes_fail covers (.error e)
    -- applied in full, since its type would be unfolded in search of further arguments
    · exact @changes_compare height t Kind covers venue coins
  · exact changes_finish covers _

end Changes

/-- A cycle relies on its own ledger, is confined, and leaves its ledger empty unless it unwinds. -/
def cycleContract (t : Trader) : Contract Landing where
  Relies s s' := s'.ledger t.ledger = s.ledger t.ledger
  Guarantees := t.Confined
  Ensures l s := l.pair = t.name ∧ ∀ o, l.ending = .ok o → s.ledger t.ledger = .empty
  relies_refl _ := rfl
  relies_trans same same' := same'.trans same
  guarantees_refl := Confined.refl t
  guarantees_trans := Confined.trans
  lasts := fun ⟨name, empty⟩ same => ⟨name, fun o ended => same.trans (empty o ended)⟩

theorem keeps_takeOff (t : Trader) (height : Nat) (s : Stores) :
    (t.takeOff height).Keeps t.cycleContract s := by
  refine Program.keeps_map.mpr (Program.keeps_of_runs (changes_cycle (t.covers_confined height)) ?_)
  rintro trace ending s' run
  refine ⟨rfl, ?_⟩
  rintro o rfl
  -- how long other pairs rest makes no difference to the ledger
  have undisturbed : t.Undisturbed ⟨t.cycleContract.Relies, fun _ => False⟩ fun _ _ => True :=
    ⟨fun _ => trivial, fun _ _ _ _ _ => trivial, fun _ _ _ => trivial, fun _ _ same => same⟩
  rcases runs_cycle undisturbed run with quiet | ⟨_, _, _, _, _, _, _, -, -, -, trading⟩
  · exact quiet.ledger_eq
  · exact trading.ledger_eq

end Trader

/-- A program that is advanced waits less often afterwards. -/
theorem asksLeft_lt_of_advance {α : Type} {n : Nat} {p : Program α n} {s : Scene σ} {w : Waiting α}
    (h : (advance net p s).2 = .waiting w) : w.asksLeft < n := by
  induction p generalizing s with
  | done a => cases h
  | look k ih => exact ih s.stores h
  | change f next ih => exact ih h
  | ask calls joining k ih =>
    rw [advance] at h
    cases joined : joined? 0 (net.beginAll calls s).2 joining with
    | some answer =>
      simp only [joined] at h
      exact Nat.lt_succ_of_lt (ih answer h)
    | none =>
      simp only [joined, Task.waiting.injEq] at h
      subst h
      exact Nat.lt_succ_self _

/-- A program that looks at what it waits for does not wait more often afterwards, and it waits less
often when it only begins. -/
theorem Waiting.asksLeft_run {α : Type} {w w' : Waiting α} {s : Scene σ}
    (h : (w.run net s).2 = .waiting w') : w'.asksLeft ≤ w.asksLeft := by
  rw [Waiting.run] at h
  cases joined : joined? w.looks (net.lookAll w.slots s).2 w.joining with
  | some answer =>
    simp only [joined] at h
    exact (asksLeft_lt_of_advance h).le
  | none =>
    simp only [joined, Task.waiting.injEq] at h
    subst h
    exact le_rfl

/-- Cycles run at a height. As long as a cycle has not begun its ledger is empty, if it was before
all of them. -/
def tradingPairs (net : Network σ) (height : Nat) (clean : Prop) : Duties net Trader Landing where
  Holds t w s := w.Keeps t.cycleContract s ∧
    (w.asksLeft < 5 ∨ w = .ofProgram (t.takeOff height) ∧ (clean → s.ledger t.ledger = .empty))
  Guarantees t := t.Confined
  Ensures t := t.cycleContract.Ensures
  turn := by
    rintro t w s ⟨keeps, stage⟩
    obtain ⟨confined, meets⟩ : t.Confined s.stores (w.run net s).1.stores ∧
      (w.run net s).2.Keeps t.cycleContract (w.run net s).1.stores := keeps.run
    refine ⟨confined, ?_⟩
    cases task : (w.run net s).2 with
    | finished a =>
      rw [task] at meets
      exact meets
    | waiting w' =>
      rw [task] at meets
      refine ⟨meets, .inl ?_⟩
      rcases stage with begun | ⟨rfl, -⟩
      · exact (Waiting.asksLeft_run task).trans_lt begun
      · exact asksLeft_lt_of_advance task

/-- What holds of a cycle that waits lasts as long as its ledger stays as it is. -/
theorem holds_trading_lasts {clean : Prop} {t : Trader} {w : Waiting Landing} {s s' : Stores}
    (h : (tradingPairs net height clean).Holds t w s)
    (same : s'.ledger t.ledger = s.ledger t.ledger) :
    (tradingPairs net height clean).Holds t w s' := by
  obtain ⟨keeps, begun | ⟨rfl, empty⟩⟩ := h
  · exact ⟨keeps.lasts same, .inl begun⟩
  · exact ⟨keeps.lasts same, .inr ⟨rfl, fun held => same.trans (empty held)⟩⟩

/-- Cycles with different ledgers run side by side. -/
theorem tradingPairs_apart {clean : Prop} {jobs : List Trader}
    (different : jobs.Pairwise fun t t' => t.ledger ≠ t'.ledger) :
    jobs.Pairwise (tradingPairs net height clean).Apart := by
  have spares {t t' : Trader} (other : t'.ledger ≠ t.ledger) :
      (tradingPairs net height clean).Spares t t' := by
    intro s s' confined
    have same := confined.ledger_eq _ other
    exact ⟨fun w holds => holds_trading_lasts holds same,
      fun l ensured => t'.cycleContract.lasts ensured same⟩
  exact different.imp fun other => ⟨spares (Ne.symm other), spares other⟩

theorem serves_trading_lasts {net : Network σ} {height : Nat} {clean : Prop} {jobs : List Trader}
    {fleet : Fleet Landing} {stores stores' : Stores}
    (h : fleet.Serves (tradingPairs net height clean) jobs stores)
    (same : ∀ number, stores'.ledger number = stores.ledger number) :
    fleet.Serves (tradingPairs net height clean) jobs stores' :=
  h.lasts (fun _ _ _ holds => holds_trading_lasts holds (same _))
    fun t _ _ ensured => t.cycleContract.lasts ensured (same _)

/-- While cycles run the pools are left alone, and so are the ledgers of all others. -/
theorem confined_of_trading {net : Network σ} {height : Nat} {clean : Prop} {jobs : List Trader}
    {stores stores' : Stores}
    (h : ReflTransGen ((tradingPairs net height clean).Changes jobs) stores stores') :
    stores'.pools = stores.pools ∧
      ∀ number, (∀ t ∈ jobs, number ≠ t.ledger) → stores'.ledger number = stores.ledger number := by
  induction h with
  | refl => exact ⟨rfl, fun _ _ => rfl⟩
  | tail _ changes ih =>
    obtain ⟨t, among, confined⟩ := changes
    exact ⟨confined.pools_eq.trans ih.1, fun number others =>
      (confined.ledger_eq number (others t among)).trans (ih.2 number others)⟩

end CrossBook.Engine
