import CrossBook.Engine.Program

/-!
# Programs in time

Several programs run side by side, one at a time, on a clock that moves only when all of them wait.
A call that takes no time is answered on the spot. Any other sets timers: one for each wait on the
way to its answer, and one for its deadline, at which it fails and is never made. When the clock
comes to the next timer, the programs it concerns line up in the order in which their timers were
set, and each of them looks at its calls when its turn comes.

## Main definitions

* `Engine.Network` — how calls are answered, and how long they take
* `Engine.Scene` — what running programs share
* `Engine.Slot` — a call that was made, with `Network.begin` and `Network.look`
* `Engine.advance` — a program run until it waits
* `Engine.Fleet` — programs that run side by side, with `turn` and `wake`
-/

namespace CrossBook.Engine

/-- How calls are answered by a world of type `σ`, for how many milliseconds they wait, once and
again, before that, and how many seconds they may take. -/
structure Network (σ : Type) where
  waits : Call → σ → List Nat
  answer : (c : Call) → σ → σ × c.Result
  limitSecs : Nat

/-- What running programs share: the stores, the world, the time in milliseconds, the number of
timers that were set, and the number of programs that were dropped before their turn came. -/
structure Scene (σ : Type) where
  stores : Stores
  world : σ
  now : Nat
  timers : Nat
  dropped : Nat

/-- A timer: when it is due, and its number. -/
structure Timer where
  time : Nat
  number : Nat
deriving DecidableEq

/-- A call that was made: its result, or the timer of its present wait, the waits after that, and
the timer of its deadline. -/
inductive Slot (c : Call) where
  | answered (r : c.Result)
  | waiting (wait : Timer) (later : List Nat) (deadline : Timer)

variable {σ α : Type}

/-! ### Calls -/

/-- The longest time a timer is set for. -/
def longestWait : Nat := twoTo 36 - 2

/-- Sets a timer. -/
def Scene.setTimer (s : Scene σ) (wait : Nat) : Scene σ × Timer :=
  ({ s with timers := s.timers + 1 }, ⟨s.now + min wait longestWait, s.timers⟩)

namespace Network

/-- The time a call may take, in milliseconds. -/
def limit (net : Network σ) : Nat := 1000 * net.limitSecs

/-- Makes a call whose waits are over. -/
def reach (net : Network σ) (c : Call) (s : Scene σ) : Scene σ × c.Result :=
  let (world, r) := net.answer c s.world
  ({ s with world := world }, r)

/-- The result of a call that met its deadline. -/
def timeout (net : Network σ) (c : Call) : c.Result :=
  .error (.execution (.timeout c.label net.limitSecs))

/-- Begins a call. One that has to wait and may take no time fails at once. -/
def begin (net : Network σ) (c : Call) (s : Scene σ) : Scene σ × Slot c :=
  match c.known? with
  | some a => (s, .answered (.ok a))
  | none =>
    match (net.waits c s.world).filter (· ≠ 0) with
    | [] =>
      let (s, r) := net.reach c s
      (s, .answered r)
    | first :: later =>
      if net.limitSecs = 0 then (s, .answered (net.timeout c))
      -- the wait takes its number before the deadline does, and lines up before it
      else
        let (s, wait) := s.setTimer first
        let (s, deadline) := s.setTimer net.limit
        (s, .waiting wait later deadline)

/-- A call that waits, unless its deadline has come. -/
def unlessLate (net : Network σ) (c : Call) (wait : Timer) (later : List Nat) (deadline : Timer)
    (now : Nat) : Slot c :=
  if deadline.time ≤ now then .answered (net.timeout c) else .waiting wait later deadline

/-- Looks at a call: a wait that is over is followed by the next one or by the answer, and only then
the deadline counts. -/
def look (net : Network σ) (c : Call) (slot : Slot c) (s : Scene σ) : Scene σ × Slot c :=
  match slot with
  | .answered r => (s, .answered r)
  | .waiting wait later deadline =>
    -- an answer that comes together with the deadline still counts
    if wait.time ≤ s.now then
      match later with
      | [] =>
        let (s, r) := net.reach c s
        (s, .answered r)
      | next :: later =>
        let (s, wait) := s.setTimer next
        (s, net.unlessLate c wait later deadline s.now)
    else (s, net.unlessLate c wait later deadline s.now)

/-- Begins calls in their order. -/
def beginAll (net : Network σ) : (calls : List Call) → Scene σ → Scene σ × Answers Slot calls
  | [], s => (s, .nil)
  | c :: calls, s =>
    let (s, slot) := net.begin c s
    let (s, slots) := net.beginAll calls s
    (s, .cons slot slots)

/-- Looks at calls in their order. -/
def lookAll (net : Network σ) :
    {calls : List Call} → Answers Slot calls → Scene σ → Scene σ × Answers Slot calls
  | _, .nil, s => (s, .nil)
  | c :: _, .cons slot slots, s =>
    let (s, slot) := net.look c slot s
    let (s, slots) := net.lookAll slots s
    (s, .cons slot slots)

end Network

/-! ### Waiting -/

/-- The results of calls that have all ended. -/
def results? : {calls : List Call} → Answers Slot calls → Option (Answers Call.Result calls)
  | _, .nil => some .nil
  | _, .cons (.answered r) slots => (results? slots).map (.cons r)
  | _, .cons (.waiting _ _ _) _ => none

/-- The failures of calls, none for one that has not failed. -/
def failures : {calls : List Call} → Answers Slot calls → List (Option Error)
  | _, .nil => []
  | _, .cons (.answered (.error e)) slots => some e :: failures slots
  | _, .cons _ slots => none :: failures slots

/-- The first failure among calls, begun with the one at a place and taken in a round. -/
def failure? {calls : List Call} (start : Nat) (slots : Answers Slot calls) : Option Error :=
  let inOrder := failures slots
  let place := start % inOrder.length
  (List.append (inOrder.drop place) (inOrder.take place)).findSome? id

/-- The replies of calls that have all succeeded. -/
def replies? : {calls : List Call} → Answers Call.Result calls → Option (Answers Call.Reply calls)
  | _, .nil => some .nil
  | _, .cons (.ok a) results => (replies? results).map (.cons a)
  | _, .cons (.error _) _ => none

/-- What waiting for calls has come to, once it is over. Of failures that come together the first
counts, where each look begins one call further on than the look before. -/
def joined? {calls : List Call} (looks : Nat) (slots : Answers Slot calls) :
    (joining : Joining) → Option (Joined joining calls)
  | .untilAll => results? slots
  | .untilFailure =>
    match failure? looks slots with
    | some e => some (.error e)
    | none => ((results? slots).bind replies?).map .ok

/-- The timers of calls that have not ended. -/
def timers : {calls : List Call} → Answers Slot calls → List Timer
  | _, .nil => []
  | _, .cons (.answered _) slots => timers slots
  | _, .cons (.waiting wait _ deadline) slots => wait :: deadline :: timers slots

/-- The number of waits that calls have not come through. -/
def waitsLeft : {calls : List Call} → Answers Slot calls → Nat
  | _, .nil => 0
  | _, .cons (.answered _) slots => waitsLeft slots
  | _, .cons (.waiting _ later _) slots => later.length + 1 + waitsLeft slots

/-- A program that waits, and how often it has looked at what it waits for. -/
structure Waiting (α : Type) where
  asksLeft : Nat
  calls : List Call
  joining : Joining
  slots : Answers Slot calls
  looks : Nat
  resume : Joined joining calls → Program α asksLeft

/-- A program that waits or has ended. -/
inductive Task (α : Type) where
  | waiting (w : Waiting α)
  | finished (a : α)

/-- Runs a program until it waits or ends. -/
def advance (net : Network σ) : {n : Nat} → Program α n → Scene σ → Scene σ × Task α
  | _, .done a, s => (s, .finished a)
  | _, .look k, s => advance net (k s.stores) s
  | _, .change f next, s => advance net next { s with stores := f s.stores }
  | _, .ask calls joining k, s =>
    let (s, slots) := net.beginAll calls s
    match joined? 0 slots joining with
    -- nothing had to be waited for, so nobody else gets a turn
    | some answer => advance net (k answer) s
    | none => (s, .waiting ⟨_, calls, joining, slots, 1, k⟩)

namespace Waiting

/-- A program that has not begun, which waits for nothing. -/
def ofProgram {n : Nat} (p : Program α n) : Waiting α := ⟨n, [], .untilAll, .nil, 0, fun _ => p⟩

/-- Looks at what a program waits for, and runs it on when that is over. -/
def run (net : Network σ) (w : Waiting α) (s : Scene σ) : Scene σ × Task α :=
  let (s, slots) := net.lookAll w.slots s
  match joined? w.looks slots w.joining with
  | some answer => advance net (w.resume answer) s
  | none => (s, .waiting { w with slots := slots, looks := w.looks + 1 })

/-- The timers that are due at a time. -/
def due (w : Waiting α) (time : Nat) : List Timer := (timers w.slots).filter fun t => t.time ≤ time

/-- Some timer is due at a time. -/
def isDue (w : Waiting α) (time : Nat) : Bool := !(w.due time).isEmpty

/-- The number of the first timer that is due at a time. -/
def rank (w : Waiting α) (time : Nat) : Nat := (((w.due time).map (·.number)).min?).getD 0

end Waiting

/-! ### Side by side -/

/-- Programs that run side by side: those in line for their turn, those that wait for a timer, and
the results of those that ended since they were last collected, in the order of their ends. -/
structure Fleet (α : Type) where
  inLine : List (Waiting α)
  waiting : List (Waiting α)
  finished : List α

/-- What can happen next to programs. -/
inductive Upcoming where
  | collecting
  | running
  | waking (time : Nat)
deriving DecidableEq

namespace Fleet

/-- Programs in line for their beginning. -/
def launch {n : Nat} (programs : List (Program α n)) : Fleet α :=
  ⟨programs.map Waiting.ofProgram, [], []⟩

/-- The fleet with one more program. -/
def add (f : Fleet α) : Task α → Fleet α
  | .waiting w => { f with waiting := f.waiting ++ [w] }
  | .finished a => { f with finished := f.finished ++ [a] }

/-- Runs programs of the line, at most a number of them. -/
def run (net : Network σ) : Nat → Fleet α → Scene σ → Scene σ × Fleet α
  | 0, f, s => (s, f)
  | count + 1, f, s =>
    match f.inLine with
    | [] => (s, f)
    | w :: rest =>
      let (s, task) := w.run net s
      run net count ({ f with inLine := rest }.add task) s

/-- Runs programs of the line: all of them, or as many as there is room for. A program that was
dropped before its turn still takes up room. -/
def turn (net : Network σ) (room : Option Nat) (f : Fleet α) (s : Scene σ) : Scene σ × Fleet α :=
  match room with
  | none => f.run net f.inLine.length { s with dropped := 0 }
  | some n => f.run net (n - s.dropped) { s with dropped := s.dropped - n }

/-- The time of the next timer. -/
def nextTime? (f : Fleet α) : Option Nat :=
  ((f.waiting.map fun w => timers w.slots).flatten.map (·.time)).min?

/-- The programs with a timer that is due at a time line up, by the first of those timers. -/
def wake (time : Nat) (f : Fleet α) : Fleet α :=
  let woken := f.waiting.filter fun w => w.isDue time
  { f with inLine := f.inLine ++ woken.mergeSort fun a b => decide (a.rank time ≤ b.rank time)
           waiting := f.waiting.filter fun w => !w.isDue time }

/-- No program is left. -/
def isDone (f : Fleet α) : Bool := f.inLine.isEmpty && f.waiting.isEmpty

/-- What happens next: results are collected as soon as there are some, then the line moves on, and
only then the clock moves. -/
def upcoming (f : Fleet α) : Upcoming :=
  if ¬ f.finished.isEmpty then .collecting
  else if ¬ f.inLine.isEmpty then .running
  else match f.nextTime? with
    | some time => .waking time
    | none => .collecting

/-- How often the programs still wait at most, together. -/
def depth (f : Fleet α) : Nat :=
  (List.append f.inLine f.waiting).foldr (fun w n => w.asksLeft + 1 + n) 0

/-- A bound for what happens to programs before one of them goes on: each wait comes to its end and
is looked at, with some turns for dropped programs before that. -/
def patience (f : Fleet α) (s : Scene σ) : Nat :=
  s.dropped + (List.append f.inLine f.waiting).foldr (fun w n => 3 * waitsLeft w.slots + n) 3

/-- The number of programs that are left. -/
def size (f : Fleet α) : Nat := f.inLine.length + f.waiting.length

end Fleet

end CrossBook.Engine
