import CrossBook.Json.Reader
import CrossBook.Venue.Book

/-!
# Frames of the venue's stream

A frame is a JSON text with the kind of the update and, as texts, the levels of one instrument:
all of them in a snapshot, the changed ones in a delta.

## Main definitions

* `Venue.Frame` — a frame, its levels still texts
* `Venue.Frame.ofText?` — the frame a text is
* `Venue.Update` — a frame with its levels read
* `Venue.Update.ofText` — the update a text holds, or what is wrong with it
-/

namespace CrossBook.Venue

/-- All levels of an instrument, or the changed ones. -/
inductive UpdateKind where
  | snapshot
  | delta
deriving DecidableEq

/-- The tag of a kind. -/
def UpdateKind.name : UpdateKind → String
  | .snapshot => "snapshot"
  | .delta => "delta"

/-- The kind with a tag. -/
def UpdateKind.ofTag? (tag : String) : Option UpdateKind :=
  if tag = "snapshot" then some .snapshot else if tag = "delta" then some .delta else none

/-- A frame as it came: the texts of prices and sizes are not read yet. -/
structure Frame where
  kind : UpdateKind
  symbol : String
  bids : List (String × String)
  asks : List (String × String)
deriving DecidableEq

/-- A change of one instrument's book. -/
structure Update where
  kind : UpdateKind
  symbol : String
  bids : List Level
  asks : List Level
deriving DecidableEq

namespace Frame

/-- The only value of a list. -/
def only? {α : Type} : List α → Option α
  | [a] => some a
  | _ => none

/-- A level: a list of exactly two strings. -/
def levelOf? : Json → Option (String × String)
  | .array [price, size] => do return (← price.text?, ← size.text?)
  | _ => none

/-- The levels of a list. -/
def levelsOf? : Json → Option (List (String × String))
  | .array items => items.mapM levelOf?
  | _ => none

/-- A frame from its kind, symbol and sides. -/
def ofParts? (kind : UpdateKind) (symbol bids asks : Json) : Option Frame := do
  return ⟨kind, ← symbol.text?, ← levelsOf? bids, ← levelsOf? asks⟩

/-- A frame from its kind and its payload: an object with one symbol and one of each side, or the
three in this order. -/
def ofPayload? (kind : UpdateKind) : Json → Option Frame
  | .object fields => do
    ofParts? kind (← only? (Json.fieldsNamed "s" fields)) (← only? (Json.fieldsNamed "b" fields))
      (← only? (Json.fieldsNamed "a" fields))
  | .array [symbol, bids, asks] => ofParts? kind symbol bids asks
  | _ => none

/-- The kind a value names. -/
def kindOf? (tag : Json) : Option UpdateKind := do UpdateKind.ofTag? (← tag.text?)

/-- The frame a value is: an object with one kind and one payload, or the two in this order. -/
def ofJson? : Json → Option Frame
  | .object fields => do
    let kind ← kindOf? (← only? (Json.fieldsNamed "type" fields))
    ofPayload? kind (← only? (Json.fieldsNamed "data" fields))
  | .array [tag, payload] => do ofPayload? (← kindOf? tag) payload
  | _ => none

/-- The depth of nesting a frame may have. -/
def maxDepth : Nat := 127

/-- The frame a text is. Everything in the text has to be sound, also what the frame ignores. -/
def ofText? (raw : String) : Option Frame :=
  match Json.read? raw with
  | some v => if v.isSound maxDepth then ofJson? v else none
  | none => none

/-- The levels with their texts read, price before size. -/
def readLevels : List (String × String) → Except DomainError (List Level)
  | [] => .ok []
  | (price, size) :: rest => do
    let price ← Amount.parse price
    let size ← Amount.parse size
    let rest ← readLevels rest
    .ok (⟨price, size⟩ :: rest)

/-- The update of a frame, bids read before asks. -/
def toUpdate (f : Frame) : Except DomainError Update := do
  let bids ← readLevels f.bids
  let asks ← readLevels f.asks
  .ok ⟨f.kind, f.symbol, bids, asks⟩

end Frame

/-- The update a text holds. -/
def Update.ofText (raw : String) : Except Error Update :=
  match Frame.ofText? raw with
  | none => .error .json
  | some f =>
    match f.toUpdate with
    | .ok u => .ok u
    | .error e => .error (.domain e)

end CrossBook.Venue
