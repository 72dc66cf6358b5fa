import CrossBook.Engine.Cycle
import CrossBook.Engine.Refresh

/-!
# Blocks in flight

Processing a block has two phases. First the pools it touched are refreshed, all together; then the
cycles of all pairs run, side by side. Results are collected from time to time, in the order in
which they came, and the first abort among them ends the block at once: whatever is in line or
waits is dropped.

## Main definitions

* `Engine.BlockEvent`, `Engine.Report` — a block, and what became of it
* `Engine.Flight` — a block that is being processed
* `Engine.Flight.step` — what happens next to it
* `Engine.Flight.runUntil` — what happens to it up to some point, or to its end
-/

namespace CrossBook.Engine

variable {σ : Type}

/-- A block, and the pools whose orders changed in it. -/
structure BlockEvent where
  height : Nat
  pools : List Nat
deriving DecidableEq

/-- How the cycle of a pair ended. -/
structure PairOutcome where
  pair : String
  outcome : Outcome
deriving DecidableEq

/-- What became of a block. -/
inductive Report where
  | busy (height : Nat)
  | processed (height : Nat) (refreshed : List Nat) (outcomes : List PairOutcome)
deriving DecidableEq

/-- The end of a pair's cycle. -/
structure Landing where
  pair : String
  ending : Ending

/-- The outcomes of cycles that ended, unless one unwinds. -/
def outcomesOf : List Landing → Except Abort (List PairOutcome)
  | [] => .ok []
  | l :: rest =>
    match l.ending with
    | .error a => .error a
    | .ok o => (outcomesOf rest).map (⟨l.pair, o⟩ :: ·)

/-- Outcomes by the names of their pairs; those of one name keep their order. -/
def sortOutcomes (outcomes : List PairOutcome) : List PairOutcome :=
  outcomes.mergeSort fun a b => decide (¬ b.pair < a.pair)

/-- A program with its value changed. -/
def Program.map {α β : Type} (f : α → β) : {n : Nat} → Program α n → Program β n
  | _, .done a => .done (f a)
  | _, .look k => .look fun s => (k s).map f
  | _, .change g next => .change g (next.map f)
  | _, .ask calls joining k => .ask calls joining fun a => (k a).map f

/-- The cycle of a pair, told apart by its name. -/
def Trader.takeOff (t : Trader) (height : Nat) : Program Landing 5 :=
  (t.cycle height).map fun ending => ⟨t.name, ending⟩

/-- A block that is being processed. -/
inductive Flight where
  | refreshing (height : Nat) (fleet : Fleet Load) (refreshed : List Nat)
  | trading (height : Nat) (refreshed : List Nat) (fleet : Fleet Landing)
      (outcomes : List PairOutcome)

/-- A block that is still being processed, or what became of it. -/
inductive Progress where
  | going (f : Flight)
  | ended (r : Except Abort Report)

/-- How a block is waited for: in the foreground, with nothing else going on, or by somebody who
takes turns with its programs. -/
inductive Post where
  | foreground
  | background
deriving DecidableEq

/-- How many programs are run before somebody looks at what has ended. In the background that is
looked at in turn, after all programs in line. -/
def Post.room : Post → Option Nat
  | .foreground => some 61
  | .background => none

/-- What happens next to a fleet, unless results are to be collected: the line moves on, or the
clock moves to the next timer. -/
def Fleet.proceed? {α : Type} (net : Network σ) (post : Post) (f : Fleet α) (s : Scene σ) :
    Option (Scene σ × Fleet α) :=
  match f.upcoming with
  | .collecting => none
  | .running => some (f.turn net post.room s)
  | .waking time => some ({ s with now := max s.now time }, f.wake time)

/-- The programs of a fleet that are left are dropped. In the background they have had their last
turns before anybody learns of it. -/
def Scene.drop {α : Type} (s : Scene σ) (post : Post) (f : Fleet α) : Scene σ :=
  match post with
  | .foreground => { s with dropped := s.dropped + f.size }
  | .background => s

namespace Flight

/-- Starts on a block by reading pools. -/
def launch (height : Nat) (targets : List OrderBookAddress) : Flight :=
  .refreshing height (.launch (targets.map fun a => a.load height)) []

/-- Collects pools that were read. When no more are waited for, the cycles start. -/
def collectLoads (traders : List Trader) (post : Post) (height : Nat) (fleet : Fleet Load)
    (refreshed : List Nat) (s : Scene σ) : Scene σ × Progress :=
  match s.stores.settle refreshed fleet.finished with
  | (stores, .error a) => ({ s with stores := stores }.drop post fleet, .ended (.error a))
  | (stores, .ok refreshed) =>
    let s := { s with stores := stores }
    -- no cycle starts before the last pool is in
    if fleet.isDone then
      (s, .going (.trading height (refreshed.mergeSort fun a b => a ≤ b)
        (.launch (traders.map fun t => t.takeOff height)) []))
    else (s, .going (.refreshing height { fleet with finished := [] } refreshed))

/-- Collects cycles that ended. When no more are waited for, the block is over. -/
def collectOutcomes (post : Post) (height : Nat) (refreshed : List Nat) (fleet : Fleet Landing)
    (outcomes : List PairOutcome) (s : Scene σ) : Scene σ × Progress :=
  match outcomesOf fleet.finished with
  | .error a => (s.drop post fleet, .ended (.error a))
  | .ok more =>
    let outcomes := outcomes ++ more
    if fleet.isDone then
      (s, .ended (.ok (.processed height refreshed (sortOutcomes outcomes))))
    else (s, .going (.trading height refreshed { fleet with finished := [] } outcomes))

/-- What happens next to a block: the line of its programs moves on, the clock moves, or results are
collected. -/
def step (net : Network σ) (traders : List Trader) (post : Post) (f : Flight) (s : Scene σ) :
    Scene σ × Progress :=
  match f with
  | .refreshing height fleet refreshed =>
    match fleet.proceed? net post s with
    | some (s, fleet) => (s, .going (.refreshing height fleet refreshed))
    | none => collectLoads traders post height fleet refreshed s
  | .trading height refreshed fleet outcomes =>
    match fleet.proceed? net post s with
    | some (s, fleet) => (s, .going (.trading height refreshed fleet outcomes))
    | none => collectOutcomes post height refreshed fleet outcomes s

/-- What happens next to a block. -/
def upcoming : Flight → Upcoming
  | .refreshing _ fleet _ => fleet.upcoming
  | .trading _ _ fleet _ => fleet.upcoming

/-- The clock has to move before anything happens to a block. -/
def isWaiting (f : Flight) : Bool :=
  match f.upcoming with
  | .waking _ => true
  | _ => false

/-- How often a block still waits at most, counting the start of the cycles. -/
def depth (traders : List Trader) : Flight → Nat
  | .refreshing _ fleet _ => fleet.depth + 6 * traders.length + 1
  | .trading _ _ fleet _ => fleet.depth

/-- A bound for what happens to a block before one of its programs goes on. -/
def patience (s : Scene σ) : Flight → Nat
  | .refreshing _ fleet _ => fleet.patience s
  | .trading _ _ fleet _ => fleet.patience s

/-- Up to a number of steps, until a point is reached, and on from there as `next` says as soon as
the block waits less often than `depth` times. -/
def stepsUntil (net : Network σ) (traders : List Trader) (post : Post) (stop : Flight → Bool)
    (next : Flight → Scene σ → Scene σ × Progress) (depth : Nat) :
    Nat → Flight → Scene σ → Scene σ × Progress
  | 0, f, s => (s, .going f)
  | steps + 1, f, s =>
    if stop f then (s, .going f)
    else match f.step net traders post s with
      | (s, .ended r) => (s, .ended r)
      | (s, .going f) =>
        if f.depth traders < depth then next f s
        else stepsUntil net traders post stop next depth steps f s

/-- Up to a number of rounds, in each of which the block comes to wait less often. -/
def roundsUntil (net : Network σ) (traders : List Trader) (post : Post) (stop : Flight → Bool) :
    Nat → Flight → Scene σ → Scene σ × Progress
  | 0, f, s => stepsUntil net traders post stop (fun f s => (s, .going f)) 0 (f.patience s) f s
  | rounds + 1, f, s =>
    stepsUntil net traders post stop (roundsUntil net traders post stop rounds) (f.depth traders)
      (f.patience s) f s

/-- What happens to a block until a point is reached, or to its end. -/
def runUntil (net : Network σ) (traders : List Trader) (post : Post) (stop : Flight → Bool)
    (f : Flight) (s : Scene σ) : Scene σ × Progress :=
  roundsUntil net traders post stop (f.depth traders) f s

end Flight

end CrossBook.Engine
