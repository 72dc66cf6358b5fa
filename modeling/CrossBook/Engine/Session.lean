import CrossBook.Engine.Flight

/-!
# Sessions

A session holds the pairs that are traded, what they share, and the blocks in flight. A block that
arrives while another one is in flight is turned away.

## Main definitions

* `Engine.Session` — a session
* `Engine.Session.list` — the session that trades the pairs of some settings
* `Engine.Session.arrive`, `Session.resume` — a block comes, and goes on
* `Engine.Session.process` — a block from its arrival to its end
* `Engine.Session.overlap`, `Session.follow` — several blocks
-/

namespace CrossBook.Engine

variable {σ : Type}

/-- A session: how calls are answered, the pairs that are traded, the guard, the blocks in flight
by the permits they hold, and what running programs share. -/
structure Session (σ : Type) where
  network : Network σ
  traders : List Trader
  guard : Guard
  flights : List (Nat × Flight)
  scene : Scene σ

namespace Session

/-- A session that trades nothing yet. -/
def idle (network : Network σ) (world : σ) : Session σ where
  network := network
  traders := []
  guard := .free
  flights := []
  scene := ⟨.ofShelf .empty, world, 0, 0, 0⟩

/-- The session with the venue's books changed. -/
def withShelf (s : Session σ) (shelf : Venue.Shelf) : Session σ :=
  { s with scene := { s.scene with stores := { s.scene.stores with shelf := shelf } } }

/-- The session with its world changed. -/
def modifyWorld (s : Session σ) (f : σ → σ) : Session σ :=
  { s with scene := { s.scene with world := f s.scene.world } }

/-! ### Listing pairs -/

/-- Traders of listings, numbered in their order. -/
def tradersOf (settings : Settings) (listings : List Listing) : List Trader :=
  listings.zipIdx.map fun l => ⟨l.2, l.1, settings⟩

/-- The listings of pairs, found one after the other. -/
def findAll (net : Network σ) : List Pair → Listing.Inquiry σ (List Listing)
  | [] => pure []
  | p :: pairs => do
    let l ← Listing.find net p
    let rest ← findAll net pairs
    pure (l :: rest)

/-- The listings of the pairs of some settings. -/
def listings (net : Network σ) (settings : Settings) : Listing.Inquiry σ (List Listing) :=
  match settings.pairs with
  | .ok pairs => findAll net pairs
  | .error e => throw (.error (.config e))

/-- The session that trades the pairs of some settings. Only the venue's books are kept from the
one before; when a pair cannot be listed, everything is. -/
def list (s : Session σ) (settings : Settings) : Session σ × Except Failure Unit :=
  let network := { s.network with limitSecs := settings.trade.callTimeoutSecs }
  match (listings network settings).run.run s.scene with
  | (.ok found, scene) =>
    ({ s with network := network
              traders := tradersOf settings found
              guard := .free
              flights := []
              scene := { scene with stores := .ofShelf scene.stores.shelf } }, .ok ())
  | (.error e, scene) => ({ s with scene := scene }, .error e)

/-! ### Blocks -/

/-- Addresses of different pools, each the first of its pool. -/
def distinctPools : List OrderBookAddress → List OrderBookAddress
  | [] => []
  | a :: rest => a :: (distinctPools rest).filter fun b => b.pool ≠ a.pool

/-- The pools a block has to read: those it touched, and those that were never read. -/
def targets (s : Session σ) (e : BlockEvent) : List OrderBookAddress :=
  distinctPools <| (s.traders.map fun t => t.listing.address).filter fun a =>
    a.pool ∈ e.pools || !s.scene.stores.pools.contains a.pool

/-- A block arrives. It is turned away when another one holds the guard; else it starts, and holds
the guard by the permit given back. -/
def arrive (s : Session σ) (e : BlockEvent) : Session σ × Option Nat :=
  let permit := s.guard.asked
  let (guard, entered) := s.guard.enter
  if entered then
    let flight := Flight.launch e.height (s.targets e)
    ({ s with guard := guard, flights := s.flights ++ [(permit, flight)] }, some permit)
  else ({ s with guard := guard }, none)

/-- The block that holds a permit. -/
def flight? (s : Session σ) (permit : Nat) : Option Flight :=
  (s.flights.find? fun f => f.1 = permit).map (·.2)

/-- The blocks in flight without the one that holds a permit. -/
def otherFlights (s : Session σ) (permit : Nat) : List (Nat × Flight) :=
  s.flights.filter fun f => f.1 ≠ permit

/-- The session after some progress of the block that holds a permit. At its end it gives the
permit back, also when it unwinds. -/
def settle (s : Session σ) (permit : Nat) (scene : Scene σ) :
    Progress → Session σ × Option (Except Abort Report)
  | .going f => ({ s with scene := scene, flights := (permit, f) :: s.otherFlights permit }, none)
  | .ended r =>
    ({ s with scene := scene, flights := s.otherFlights permit
              guard := (s.guard.release permit).1 }, some r)

/-- The block that holds a permit goes on until a point is reached, or to its end. -/
def resumeUntil (post : Post) (stop : Flight → Bool) (s : Session σ) (permit : Nat) :
    Session σ × Option (Except Abort Report) :=
  match s.flight? permit with
  | none => (s, none)
  | some f =>
    let (scene, progress) := f.runUntil s.network s.traders post stop s.scene
    s.settle permit scene progress

/-- One thing happens to the block that holds a permit. -/
def resumeOnce (post : Post) (s : Session σ) (permit : Nat) :
    Session σ × Option (Except Abort Report) :=
  match s.flight? permit with
  | none => (s, none)
  | some f =>
    let (scene, progress) := f.step s.network s.traders post s.scene
    s.settle permit scene progress

/-- The block that holds a permit goes on to its end. -/
def resume (post : Post) (s : Session σ) (permit : Nat) :
    Session σ × Option (Except Abort Report) :=
  s.resumeUntil post (fun _ => false) permit

/-- The block that holds a permit goes on until the clock has to move. -/
def resumeNow (post : Post) (s : Session σ) (permit : Nat) :
    Session σ × Option (Except Abort Report) :=
  s.resumeUntil post Flight.isWaiting permit

/-- A block from its arrival to its end, in the foreground. -/
def process (s : Session σ) (e : BlockEvent) : Session σ × Option (Except Abort Report) :=
  match s.arrive e with
  | (s, some permit) => s.resume .foreground permit
  | (s, none) => (s, some (.ok (.busy e.height)))

/-- What became of two blocks, and whether the first was in flight when the second arrived. -/
structure Overlap where
  busyBetween : Bool
  first : Option (Except Abort Report)
  second : Option (Except Abort Report)

/-- A block arrives while another one, in the background, waits for something. -/
def overlap (s : Session σ) (first second : BlockEvent) : Session σ × Overlap :=
  match s.arrive first with
  | (s, none) =>
    let busy := s.guard.isBusy
    let (s, r) := s.process second
    (s, ⟨busy, some (.ok (.busy first.height)), r⟩)
  | (s, some permit) =>
    let (s, early) := s.resumeNow .background permit
    let busy := s.guard.isBusy
    let (s, r) := s.process second
    match early with
    | some report => (s, ⟨busy, some report, r⟩)
    | none =>
      let (s, report) := s.resume .background permit
      (s, ⟨busy, report, r⟩)

/-- Blocks that have all arrived before the first of them goes on; the others are turned away. -/
def follow (s : Session σ) (events : List BlockEvent) : Session σ × Option (Except Abort Report) :=
  match events with
  | [] => (s, none)
  | first :: others =>
    match s.arrive first with
    | (s, none) => (others.foldl (fun s e => (s.arrive e).1) s, none)
    | (s, some permit) => (others.foldl (fun s e => (s.arrive e).1) s).resume .background permit

/-- Reads pools, apart from any block. -/
def refresh (s : Session σ) (height : Nat) (targets : List OrderBookAddress) :
    Session σ × Option (Except Abort Report) :=
  let f := Flight.launch height targets
  let (scene, progress) := f.runUntil s.network [] .foreground (fun _ => false) s.scene
  ({ s with scene := scene }, match progress with
    | .going _ => none
    | .ended r => some r)

end Session

end CrossBook.Engine
