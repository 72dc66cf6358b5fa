import CrossBook.Engine.Cycle
import CrossBook.Proofs.Engine.Runs

/-!
# Attempts

A cycle is an attempt at a trade, which may fail anywhere on its way, and a conclusion drawn from how
the attempt ended. The attempt does not look at its failures. The conclusion alone tells those that
unwind from those that are reported.

## Main definitions

* `Engine.Program.andThen` — a program that goes on as its value says
* `Engine.Trader.attempt` — the attempt of a cycle
* `Engine.Trader.conclude`, `Engine.Trader.endingOf` — what is concluded from it

## Main results

* `Engine.Trader.cycle_eq` — a cycle is an attempt and its conclusion
* `Engine.Trader.attempt_of_cycle` — so every run of a cycle is the run of an attempt
-/

namespace CrossBook.Engine

open Text Trade

variable {α β : Type}

/-! ### One program after another -/

namespace Program

/-- A program that goes on as its value says. Whatever comes then may wait as often as the program
could still have done. -/
def andThen (next : α → (m : Nat) → Program β m) : {n : Nat} → Program α n → Program β n
  | n, .done a => next a n
  | _, .look k => .look fun s => (k s).andThen next
  | _, .change f p => .change f (p.andThen next)
  | _, .ask calls joining k => .ask calls joining fun answer => (k answer).andThen next

variable {next : α → (m : Nat) → Program β m} {n : Nat}

theorem andThen_call {c : Call} (k : c.Result → Program α n) :
    (Program.call c k).andThen next = .call c fun r => (k r).andThen next := by
  refine congrArg (Program.ask [c] .untilAll) (funext ?_)
  rintro (_ | ⟨r, _ | _⟩)
  rfl

/-- A run of two programs, one after the other, is a run of the first and then one of the second. -/
theorem Runs.of_andThen {surroundings : Surroundings} {p : Program α n} {s s' : Stores}
    {trace : List Exchange} {b : β} (h : (p.andThen next).Runs surroundings s trace b s') :
    ∃ m first a s₁ second, trace = first ++ second ∧ p.Runs surroundings s first a s₁ ∧
      (next a m).Runs surroundings s₁ second b s' := by
  induction p generalizing s trace with
  | @done n a => exact ⟨n, [], a, s, trace, rfl, .done a s, h⟩
  | look k ih =>
    obtain ⟨m, first, a, s₁, second, rfl, run, rest⟩ := ih s (runs_look_iff.mp h)
    exact ⟨m, first, a, s₁, second, rfl, .look run, rest⟩
  | change f p ih =>
    obtain ⟨m, first, a, s₁, second, rfl, run, rest⟩ := ih (runs_change_iff.mp h)
    exact ⟨m, first, a, s₁, second, rfl, .change run, rest⟩
  | ask calls joining k ih =>
    obtain ⟨answer, there, s₀, trace, rfl, possible, meanwhile, h⟩ := runs_ask_iff.mp h
    obtain ⟨m, first, a, s₁, second, rfl, run, rest⟩ := ih answer h
    exact ⟨m, _ :: first, a, s₁, second, rfl, .ask _ possible meanwhile run, rest⟩

end Program

/-! ### The attempt -/

/-- How an attempt ends, or why it failed. -/
abbrev Attempt := Except Failure Outcome

namespace Trader

/-- Rests after a trade. -/
def tryClose (t : Trader) (height : Nat) (p : Plan) (legs : Legs) (claims : ClaimFlush) {n : Nat} :
    Program Attempt n :=
  match t.cooldownUntil height with
  | .error f => .done (.error f)
  | .ok cooldown =>
    .change (·.rest t.name cooldown) (.done (.ok (.executed ⟨p, legs, claims, cooldown⟩)))

/-- Claims what the ledger holds. -/
def tryClaim (t : Trader) (height : Nat) (p : Plan) (legs : Legs) : Program Attempt 1 :=
  .look fun s =>
    let claims := (s.ledger t.ledger).claims
    .change (·.modifyLedger t.ledger fun l => l.drain.2) <|
      if claims.isEmpty then t.tryClose height p legs .nothing
      else .call (.execute t.listing.address.contract (batchText claims)) fun r =>
        t.tryClose height p legs (flushed claims.length r)

/-- Sends both legs. -/
def trySend (t : Trader) (height : Nat) (p : Plan) (order : MarketOrder) (swap : SwapRequest) :
    Program Attempt 2 :=
  .ask [.placeOrder order, .swap swap] .untilAll fun
    | .cons venue (.cons chain .nil) => t.tryClaim height p ⟨venueLeg venue, chainLeg chain⟩

/-- Acts on a verdict. -/
def tryAct (t : Trader) (height : Nat) (p : Plan) : Except Failure Verdict → Program Attempt 2
  | .error f => .done (.error f)
  | .ok (.unprofitable profit cost) => .done (.ok (.skipped (.unprofitable profit cost)))
  | .ok (.trade order swap) => t.trySend height p order swap

/-- Simulates the swap of a plan that has no shortfall, and weighs profit against cost. -/
def trySimulate (t : Trader) (height : Nat) (p : Plan) (prices : PriceSheet) :
    Except Failure (Option (Decimal × Decimal)) → Program Attempt 3
  | .error f => .done (.error f)
  | .ok (some (fill, minimum)) => .done (.ok (.skipped (.belowMinimum fill minimum)))
  | .ok none =>
    .call (.simulate (t.swapLeg p).1 (t.swapLeg p).2) fun
      | .error e => .done (.error (.error e))
      | .ok simulation => t.tryAct height p (t.verdict p prices simulation)

/-- Fetches the prices a plan is weighed by. -/
def tryPrices (t : Trader) (height : Nat) (p : Plan) : Program Attempt 4 :=
  let pair := t.listing.pair
  .ask [t.priceCall pair.base.denom, t.priceCall pair.quote.denom,
    t.priceCall t.settings.chain.feeDenom] .untilFailure fun
    | .error e => .done (.error (.error e))
    | .ok (.cons base (.cons quote (.cons fee .nil))) =>
      t.trySimulate height p ⟨base, quote, fee⟩ (t.shortfall p ⟨base, quote, fee⟩)

/-- Takes up what the two books offer, and collects the claims of the plan. -/
def tryTakeUp (t : Trader) (height : Nat) : Except Failure Prospect → Program Attempt 4
  | .error f => .done (.error f)
  | .ok .noOpportunity => .done (.ok (.skipped .noOpportunity))
  | .ok .noFill => .done (.ok (.skipped .noFill))
  | .ok (.funded p) =>
    .change (·.modifyLedger t.ledger fun l => l.record p.claims) <|
      if p.IsEmpty then .done (.ok (.skipped .insufficientBalance)) else t.tryPrices height p

/-- Compares the two books. -/
def tryCompare (t : Trader) (height : Nat) (venue : Table String Decimal) (coins : List Coin) :
    Program Attempt 4 :=
  .look fun s => t.tryTakeUp height (t.prospect s venue coins)

/-- The attempt of a cycle at a height. -/
def attempt (t : Trader) (height : Nat) : Program Attempt 5 :=
  .look fun s =>
    match s.cooldowns.blockedUntil t.name height with
    | some blocked => .done (.ok (.coolingDown blocked))
    | none =>
      .ask [.venueBalances, .chainBalances t.settings.chain.accountAddress] .untilFailure fun
        | .error e => .done (.error (.error e))
        | .ok (.cons venue (.cons coins .nil)) => t.tryCompare height venue coins

/-! ### The conclusion -/

/-- What is concluded from an attempt. Only a trade keeps what was collected for it. -/
def conclude (t : Trader) (height : Nat) : Attempt → (n : Nat) → Program Ending n
  | .ok (.executed e), _ => .done (.ok (.executed e))
  | .ok o, _ => t.finish o
  | .error f, _ => t.fail height f

/-- The ending that is concluded from an attempt: a failure is reported, unless it is an abort or
says that the state cannot be. -/
def endingOf (t : Trader) (height : Nat) : Attempt → Ending
  | .ok o => .ok o
  | .error (.abort a) => .error a
  | .error (.error e) =>
    if e.severity = .invalidState then
      .error (.invalidState
        (t.name ++ ": invalid state at height " ++ writeNat height ++ ": " ++ e.message))
    else .ok (.aborted e.severity e.message)

variable {t : Trader} {height n : Nat}

theorem runs_finish {surroundings : Surroundings} {s s' : Stores} {trace : List Exchange}
    {o : Outcome} {ending : Ending}
    (h : (t.finish o (n := n)).Runs surroundings s trace ending s') :
    trace = [] ∧ ending = .ok o := by
  obtain ⟨rfl, rfl, -⟩ := Program.runs_done_iff.mp (Program.runs_change_iff.mp h)
  exact ⟨rfl, rfl⟩

/-- The conclusion makes no calls. -/
theorem runs_conclude {surroundings : Surroundings} {s s' : Stores} {trace : List Exchange}
    {result : Attempt} {ending : Ending}
    (h : (t.conclude height result n).Runs surroundings s trace ending s') :
    trace = [] ∧ ending = t.endingOf height result := by
  rcases result with (e | a) | o
  · rw [conclude, fail] at h
    rw [endingOf]
    split_ifs at h ⊢
    · obtain ⟨rfl, rfl, -⟩ := Program.runs_done_iff.mp h
      exact ⟨rfl, rfl⟩
    · exact runs_finish h
  · obtain ⟨rfl, rfl, -⟩ := Program.runs_done_iff.mp h
    exact ⟨rfl, rfl⟩
  · cases o with
    | executed e =>
      obtain ⟨rfl, rfl, -⟩ := Program.runs_done_iff.mp h
      exact ⟨rfl, rfl⟩
    | coolingDown | skipped | aborted => exact runs_finish h

/-! The stages of a cycle, from the end to the beginning. -/

theorem tryClose_andThen (p : Plan) (legs : Legs) (claims : ClaimFlush) :
    (t.tryClose height p legs claims (n := n)).andThen (t.conclude height) =
      t.close height p legs claims := by
  rw [tryClose, close]
  cases t.cooldownUntil height <;> rfl

theorem tryClaim_andThen (p : Plan) (legs : Legs) :
    (t.tryClaim height p legs).andThen (t.conclude height) = t.claim height p legs := by
  refine congrArg Program.look (funext fun s => congrArg (Program.change _) ?_)
  split_ifs
  · exact tryClose_andThen p legs _
  · rw [Program.andThen_call]
    simp only [tryClose_andThen]

theorem trySend_andThen (p : Plan) (order : MarketOrder) (swap : SwapRequest) :
    (t.trySend height p order swap).andThen (t.conclude height) = t.send height p order swap := by
  refine congrArg (Program.ask _ _) (funext ?_)
  rintro (_ | ⟨venue, _ | ⟨chain, _ | _⟩⟩)
  exact tryClaim_andThen p _

theorem tryAct_andThen (p : Plan) (verdict : Except Failure Verdict) :
    (t.tryAct height p verdict).andThen (t.conclude height) = t.act height p verdict := by
  rcases verdict with f | _ | _
  · rfl
  · rfl
  · exact trySend_andThen p _ _

theorem trySimulate_andThen (p : Plan) (prices : PriceSheet)
    (shortfall : Except Failure (Option (Decimal × Decimal))) :
    (t.trySimulate height p prices shortfall).andThen (t.conclude height) =
      t.simulateUnless height p prices shortfall := by
  rcases shortfall with f | _ | _
  · rfl
  · rw [trySimulate, simulateUnless, Program.andThen_call]
    refine congrArg (Program.call _) (funext ?_)
    rintro (e | simulation)
    · rfl
    · exact tryAct_andThen p _
  · rfl

theorem tryPrices_andThen (p : Plan) :
    (t.tryPrices height p).andThen (t.conclude height) = t.fetchPrices height p := by
  refine congrArg (Program.ask _ _) (funext ?_)
  rintro (e | ⟨_ | ⟨base, _ | ⟨quote, _ | ⟨fee, _ | _⟩⟩⟩⟩)
  · rfl
  · exact trySimulate_andThen p _ _

theorem tryTakeUp_andThen (prospect : Except Failure Prospect) :
    (t.tryTakeUp height prospect).andThen (t.conclude height) = t.takeUp height prospect := by
  rcases prospect with f | _ | _ | p
  · rfl
  · rfl
  · rfl
  · refine congrArg (Program.change _) ?_
    split_ifs
    · rfl
    · exact tryPrices_andThen p

theorem tryCompare_andThen (venue : Table String Decimal) (coins : List Coin) :
    (t.tryCompare height venue coins).andThen (t.conclude height) = t.compare height venue coins := by
  unfold tryCompare Trader.compare
  rw [Program.andThen]
  simp only [tryTakeUp_andThen]

/-- A cycle is an attempt and its conclusion. -/
theorem cycle_eq (t : Trader) (height : Nat) :
    t.cycle height = (t.attempt height).andThen (t.conclude height) := by
  refine congrArg Program.look (funext fun s => ?_)
  dsimp only
  cases s.cooldowns.blockedUntil t.name height with
  | some blocked => rfl
  | none =>
    refine congrArg (Program.ask _ _) (funext ?_)
    rintro (e | ⟨_ | ⟨venue, _ | ⟨coins, _ | _⟩⟩⟩)
    · rfl
    · exact (@tryCompare_andThen t height venue coins).symm

/-- Every run of a cycle is the run of an attempt, and ends as is concluded from it. -/
theorem attempt_of_cycle {surroundings : Surroundings} {s s' : Stores} {trace : List Exchange}
    {ending : Ending} (h : (t.cycle height).Runs surroundings s trace ending s') :
    ∃ result s₁, (t.attempt height).Runs surroundings s trace result s₁ ∧
      ending = t.endingOf height result := by
  rw [cycle_eq] at h
  obtain ⟨m, first, result, s₁, second, rfl, run, rest⟩ := h.of_andThen
  obtain ⟨rfl, rfl⟩ := runs_conclude rest
  exact ⟨result, s₁, by rwa [List.append_nil], rfl⟩

end Trader

end CrossBook.Engine
