import CrossBook.Table
import CrossBook.Venue.Frame

/-!
# The books of all instruments

Books by symbol, kept current by the venue's stream. The first snapshot of an instrument makes its
book; a delta of an instrument without a book is refused.

## Main definitions

* `Venue.Shelf` — books by symbol
* `Venue.Book.apply` — an update of one book
* `Venue.Shelf.apply` — an update of the book it is for
* `Venue.Shelf.receive`, `Venue.Shelf.follow` — frames as they come
-/

namespace CrossBook.Venue

/-- The book after an update: a snapshot replaces every level, a delta upserts the bids and then
the asks in order. -/
def Book.apply (b : Book) (u : Update) : Book :=
  match u.kind with
  | .snapshot => b.replace u.bids u.asks
  | .delta =>
    let b := u.bids.foldl (fun b l => b.upsert .bid l) b
    u.asks.foldl (fun b l => b.upsert .ask l) b

/-- Books by symbol. -/
abbrev Shelf := Table String Book

namespace Shelf

/-- The shelf after an update. -/
def apply (s : Shelf) (u : Update) : Except Error Shelf :=
  match s.get? u.symbol, u.kind with
  | some b, _ => .ok (s.insert u.symbol (b.apply u))
  | none, .snapshot => .ok (s.insert u.symbol ((Book.empty u.symbol).apply u))
  | none, .delta => .error (.bookUnavailable u.symbol)

/-- The shelf after a frame, read in full before anything changes. -/
def receive (s : Shelf) (raw : String) : Except Error Shelf :=
  match Update.ofText raw with
  | .ok u => s.apply u
  | .error e => .error e

/-- The shelf after a frame, which is dropped when it fails. -/
def follow (s : Shelf) (raw : String) : Shelf :=
  match s.receive raw with
  | .ok s => s
  | .error _ => s

end Shelf

end CrossBook.Venue
