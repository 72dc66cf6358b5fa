import CrossBook.Failure
import CrossBook.Amount

/-!
# The venue's book

Price levels by side. Prices are told apart by value, and a price stands on one side at a time. The
levels of a side are kept in no order of theirs: whoever wants them by priority gets a sorted copy,
and the best of them is found without one.

## Main definitions

* `Venue.Level` — a price and the size offered at it
* `Venue.Levels.insert`, `Venue.Levels.erase` — the levels of one side
* `Venue.Book` — a book, with `upsert`, `remove` and `replace`
* `Venue.Book.bidsDescending`, `asksAscending` — the sides in priority order
* `Venue.Book.bestBid`, `bestAsk` — the best level of each side
* `Venue.Book.rescale`, `restateBidsInQuote` — the same book in other units
-/

namespace CrossBook.Venue

/-- A price and the size offered at it. -/
structure Level where
  price : Decimal
  size : Decimal
deriving DecidableEq

/-- The level offers nothing. -/
def Level.isVoid (l : Level) : Prop := l.size.units = 0

instance (l : Level) : Decidable l.isVoid := inferInstanceAs (Decidable (_ = _))

namespace Levels

/-- The levels with this size at its price, instead of any other size there. -/
def insert (l : Level) : List Level → List Level
  | [] => [l]
  | h :: t => if h.price.SameValue l.price then ⟨h.price, l.size⟩ :: t else h :: insert l t

/-- The levels at other prices. -/
def erase (price : Decimal) (levels : List Level) : List Level :=
  levels.filter fun l => ¬ l.price.SameValue price

/-- Some level is at the price. -/
def hasPrice (price : Decimal) (levels : List Level) : Bool :=
  levels.any fun l => l.price.SameValue price

/-- The levels inserted one after the other, void ones left out. -/
def ofList (levels : List Level) : List Level :=
  levels.foldl (fun kept l => if l.isVoid then kept else insert l kept) []

/-- The levels, higher prices first. -/
def descending (levels : List Level) : List Level := levels.mergeSort fun a b => b.price ≤ a.price

/-- The levels, lower prices first. -/
def ascending (levels : List Level) : List Level := levels.mergeSort fun a b => a.price ≤ b.price

/-- The level at the highest price, of several the last. -/
def highest? : List Level → Option Level
  | [] => none
  | l :: rest =>
    match highest? rest with
    | none => some l
    | some h => if h.price < l.price then some l else some h

/-- The level at the lowest price, of several the first. -/
def lowest? : List Level → Option Level
  | [] => none
  | l :: rest =>
    match lowest? rest with
    | none => some l
    | some h => if h.price < l.price then some h else some l

/-- The levels with every size replaced, unless one has no replacement. -/
def mapSizes? (f : Level → Option Decimal) : List Level → Option (List Level)
  | [] => some []
  | l :: rest => do
    let size ← f l
    let rest ← mapSizes? f rest
    some (⟨l.price, size⟩ :: rest)

end Levels

/-- The book of one instrument: its levels by side. -/
structure Book where
  symbol : String
  bids : List Level
  asks : List Level
deriving DecidableEq

namespace Book

/-- The book without levels. -/
def empty (symbol : String) : Book := ⟨symbol, [], []⟩

/-- The levels of a side. -/
def levels (b : Book) : Side → List Level
  | .bid => b.bids
  | .ask => b.asks

/-- The book with the levels of a side changed. -/
def modify (b : Book) (side : Side) (f : List Level → List Level) : Book :=
  match side with
  | .bid => { b with bids := f b.bids }
  | .ask => { b with asks := f b.asks }

/-- The book without the level at a price of a side. -/
def remove (b : Book) (side : Side) (price : Decimal) : Book := b.modify side (Levels.erase price)

/-- The book with the size at a price of a side. No size removes the level there; any other also
removes the level at that price from the opposite side. -/
def upsert (b : Book) (side : Side) (l : Level) : Book :=
  if l.isVoid then b.remove side l.price
  else (b.remove side.opposite l.price).modify side (Levels.insert l)

/-- The book with these levels only: later ones over earlier ones, and bids over asks. -/
def replace (b : Book) (bids asks : List Level) : Book :=
  let kept := Levels.ofList bids
  { b with bids := kept
           asks := Levels.ofList (asks.filter fun l => !Levels.hasPrice l.price kept) }

/-- The book with these levels. -/
def ofLevels (symbol : String) (bids asks : List Level) : Book := (empty symbol).replace bids asks

/-- Bids, the highest price first. -/
def bidsDescending (b : Book) : List Level := Levels.descending b.bids

/-- Asks, the lowest price first. -/
def asksAscending (b : Book) : List Level := Levels.ascending b.asks

/-- The bid at the highest price. -/
def bestBid (b : Book) : Option Level := Levels.highest? b.bids

/-- The ask at the lowest price. -/
def bestAsk (b : Book) : Option Level := Levels.lowest? b.asks

/-- The number of levels of a side. -/
def depth (b : Book) (side : Side) : Nat := (b.levels side).length

/-- The book has no levels. -/
def isEmpty (b : Book) : Bool := b.bids.isEmpty && b.asks.isEmpty

/-- The book with every size replaced, by side. -/
def mapSizes? (b : Book) (bid ask : Level → Option Decimal) : Option Book := do
  let bids ← Levels.mapSizes? bid b.bids
  let asks ← Levels.mapSizes? ask b.asks
  some { b with bids := bids, asks := asks }

/-- Ask sizes times a power of ten and bid sizes times another: base and quote in native units. -/
def rescale (b : Book) (baseExponent quoteExponent : Int) : Except DomainError Book :=
  orError (.precisionOverflow "rescaling book sizes") <| do
    let baseFactor ← Decimal.powerOfTen? baseExponent
    let quoteFactor ← Decimal.powerOfTen? quoteExponent
    b.mapSizes? (fun l => l.size.mul? quoteFactor) (fun l => l.size.mul? baseFactor)

/-- Bid sizes times their prices: bids in quote. -/
def restateBidsInQuote (b : Book) : Except DomainError Book :=
  orError (.precisionOverflow "restating bids in quote") <|
    b.mapSizes? (fun l => l.size.mul? l.price) (fun l => some l.size)

end Book

end CrossBook.Venue
