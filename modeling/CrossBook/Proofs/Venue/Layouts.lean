import CrossBook.Proofs.Json.Recognition
import CrossBook.Proofs.Json.Writing
import CrossBook.Proofs.Venue.Shelf

/-!
# Frames in any layout

What a frame says is in a few named fields. Their order, the fields between them and the white space
around them say nothing: texts that agree in the named fields hold the same update, or are refused
for the same reason. A frame with every named field once is always understood, and of its texts that
are no decimals the first one is named, bids before asks and prices before sizes.

## Main definitions

* `Venue.Spreads` — fields among others, in any order
* `Venue.FramesAlike` — values that differ in layout only
* `Venue.Frame.LaidOut` — a frame as an object, in any layout
* `Venue.Frame.firstUnreadable?` — the first text of a frame that is no decimal

## Main results

* `Venue.FramesAlike.ofJson?_eq`, `Venue.FramesAlike.isSound_eq` — the layout is not seen
* `Venue.Frame.LaidOut.ofJson?_eq` — every layout of a frame is that frame
* `Venue.ofText_of_layouts` — the update of a text, whatever its layout
-/

namespace CrossBook

/-! ### Fields among others -/

theorem Json.fieldsAreSound_iff {depth : Nat} {fields : List (List CodeUnit × Json)} :
    fieldsAreSound depth fields ↔
      ∀ f ∈ fields, (∃ name, textOfUnits? f.1 = some name) ∧ f.2.isSound depth := by
  induction fields with
  | nil => simp [fieldsAreSound]
  | cons f rest ih =>
    rw [List.forall_mem_cons, ← ih]
    simp [fieldsAreSound, textOfUnits?, Option.isSome_iff_exists]

theorem Json.isSound_of_text? {v : Json} {text : String} {depth : Nat} (h : v.text? = some text) :
    v.isSound depth := by
  cases v with
  | string units => simpa [Json.text?, Json.textOfUnits?, Json.isSound, Option.isSome_iff_exists]
      using ⟨_, (Option.map_eq_some_iff.mp h).choose_spec.1⟩
  | _ => simp [Json.text?] at h

namespace Venue

/-- The known fields, in any order and among others. The others have other names than those that
count, and values that may stand at this depth. -/
def Spreads (counting : List String) (depth : Nat) (known : List (String × Json))
    (fields : List (List Json.CodeUnit × Json)) : Prop :=
  ∃ named others, fields.Perm (named ++ others) ∧
    List.Forall₂ (fun f k => Json.textOfUnits? f.1 = some k.1 ∧ f.2 = k.2) named known ∧
    ∀ f ∈ others, (∃ name, Json.textOfUnits? f.1 = some name ∧ name ∉ counting) ∧
      f.2.isSound depth

/-- The values of the known fields with a name. -/
def valuesNamed (name : String) (known : List (String × Json)) : List Json :=
  (known.filter fun k => k.1 = name).map (·.2)

section Spreads

variable {counting : List String} {depth : Nat} {known known' : List (String × Json)}
  {fields fields' : List (List Json.CodeUnit × Json)}

/-- Only the known fields decide whether an object may stand at a depth. -/
theorem Spreads.fieldsAreSound_iff (h : Spreads counting depth known fields) :
    Json.fieldsAreSound depth fields ↔ ∀ k ∈ known, k.2.isSound depth := by
  obtain ⟨named, others, order, same, ignored⟩ := h
  have othersSound : ∀ f ∈ others,
      (∃ name, Json.textOfUnits? f.1 = some name) ∧ f.2.isSound depth := fun f among =>
    let ⟨⟨name, read, _⟩, sound⟩ := ignored f among
    ⟨⟨name, read⟩, sound⟩
  rw [Json.fieldsAreSound_iff]
  simp only [order.mem_iff, List.forall_mem_append]
  rw [and_iff_left othersSound]
  clear order
  induction same with
  | nil => simp
  | @cons f k named known first _ ih =>
    rw [List.forall_mem_cons, List.forall_mem_cons, first.2]
    exact and_congr (and_iff_right ⟨k.1, first.1⟩) ih

/-- The fields with a name that counts are known ones. -/
theorem Spreads.fieldsNamed_perm (h : Spreads counting depth known fields) {name : String}
    (counts : name ∈ counting) : (Json.fieldsNamed name fields).Perm (valuesNamed name known) := by
  obtain ⟨named, others, order, same, ignored⟩ := h
  have otherNames : others.filter (fun f => Json.textOfUnits? f.1 = some name) = [] := by
    refine List.filter_eq_nil_iff.mpr fun f among => ?_
    obtain ⟨⟨other, read, apart⟩, -⟩ := ignored f among
    simp only [read, Option.some.injEq, decide_eq_true_eq]
    exact fun eq => apart (eq ▸ counts)
  have knownValues : (named.filter fun f => Json.textOfUnits? f.1 = some name).map (·.2) =
      valuesNamed name known := by
    clear order
    induction same with
    | nil => rfl
    | @cons f k named known first _ ih =>
      by_cases here : k.1 = name <;>
        simpa [valuesNamed, first.1, first.2, here] using ih
  -- the named values keep their order among the known fields, though not in the object
  refine ((order.filter _).map _).trans (List.Perm.of_eq ?_)
  rw [List.filter_append, otherNames, List.append_nil, knownValues]

theorem only?_of_perm {α : Type} {as bs : List α} (h : as.Perm bs) :
    Frame.only? as = Frame.only? bs := by
  cases as with
  | nil => rw [h.nil_eq]
  | cons a rest =>
    cases rest with
    | nil => rw [h.singleton_eq]
    | cons b rest =>
      match bs, h.length_eq with
      | _ :: _ :: _, _ => rfl

/-- The only value of a name that counts is the only one among the known fields. -/
theorem Spreads.only?_eq (h : Spreads counting depth known fields) {name : String}
    (counts : name ∈ counting) :
    Frame.only? (Json.fieldsNamed name fields) = Frame.only? (valuesNamed name known) :=
  only?_of_perm (h.fieldsNamed_perm counts)

end Spreads

/-! ### Layouts -/

/-- The names that count in a frame. -/
def frameNames : List String := ["type", "data"]

/-- The names that count in its payload. -/
def payloadNames : List String := ["s", "b", "a"]

/-- The depth inside a frame, and inside its payload. -/
def frameDepth : Nat := Frame.maxDepth - 1

/-- The depth inside the payload of a frame. -/
def payloadDepth : Nat := frameDepth - 1

/-- Payloads that differ in the order of their fields and in fields that do not count. -/
inductive PayloadsAlike : Json → Json → Prop
  | same (v : Json) : PayloadsAlike v v
  | object {known : List (String × Json)} {fields fields' : List (List Json.CodeUnit × Json)}
      (h : Spreads payloadNames payloadDepth known fields)
      (h' : Spreads payloadNames payloadDepth known fields') :
      PayloadsAlike (.object fields) (.object fields')

/-- Frames that differ in the order of fields and in fields that do not count, at either level. -/
inductive FramesAlike : Json → Json → Prop
  | same (v : Json) : FramesAlike v v
  | pair (tag : Json) {payload payload' : Json} (h : PayloadsAlike payload payload') :
      FramesAlike (.array [tag, payload]) (.array [tag, payload'])
  | object {known known' : List (String × Json)} {fields fields' : List (List Json.CodeUnit × Json)}
      (h : Spreads frameNames frameDepth known fields)
      (h' : Spreads frameNames frameDepth known' fields')
      (alike : List.Forall₂ (fun k k' => k.1 = k'.1 ∧ PayloadsAlike k.2 k'.2) known known') :
      FramesAlike (.object fields) (.object fields')

section Alike

variable {v v' : Json} {known known' : List (String × Json)}

theorem PayloadsAlike.isSound_eq (h : PayloadsAlike v v') :
    v.isSound frameDepth = v'.isSound frameDepth := by
  cases h with
  | same => rfl
  | object h h' =>
    rw [Json.isSound, Json.isSound]
    exact congrArg _ (Bool.eq_iff_iff.mpr (h.fieldsAreSound_iff.trans h'.fieldsAreSound_iff.symm))

/-- The payload is the same frame, whatever its layout. -/
theorem PayloadsAlike.ofPayload?_eq (h : PayloadsAlike v v') (kind : UpdateKind) :
    Frame.ofPayload? kind v = Frame.ofPayload? kind v' := by
  cases h with
  | same => rfl
  | object h h' =>
    have only (name : String) (counts : name ∈ payloadNames) :=
      (h.only?_eq counts).trans (h'.only?_eq counts).symm
    simp only [Frame.ofPayload?, only "s" (by decide), only "b" (by decide), only "a" (by decide)]

/-- Objects are no kinds, so the layout of a value says nothing of the kind it names. -/
theorem PayloadsAlike.kindOf?_eq (h : PayloadsAlike v v') : Frame.kindOf? v = Frame.kindOf? v' := by
  cases h <;> rfl

/-- Fields with the same names and values alike have the same only values, up to layout. -/
theorem only?_valuesNamed_alike (name : String)
    (alike : List.Forall₂ (fun k k' => k.1 = k'.1 ∧ PayloadsAlike k.2 k'.2) known known') :
    Option.Rel PayloadsAlike (Frame.only? (valuesNamed name known))
      (Frame.only? (valuesNamed name known')) := by
  have values : List.Forall₂ PayloadsAlike (valuesNamed name known) (valuesNamed name known') := by
    induction alike with
    | nil => exact .nil
    | @cons k k' known known' first _ ih =>
      by_cases here : k'.1 = name
      · simpa [valuesNamed, first.1, here] using And.intro first.2 ih
      · simpa [valuesNamed, first.1, here] using ih
  generalize valuesNamed name known = vs, valuesNamed name known' = vs' at values
  match values with
  | .nil => exact .none
  | .cons first .nil => exact .some first
  | .cons _ (.cons _ _) => exact .none

/-- Whether a text may be a frame does not depend on its layout. -/
theorem FramesAlike.isSound_eq (h : FramesAlike v v') :
    v.isSound Frame.maxDepth = v'.isSound Frame.maxDepth := by
  cases h with
  | same => rfl
  | pair tag h =>
    have sound := h.isSound_eq
    rw [frameDepth] at sound
    simp only [Json.isSound, Json.areSound, sound]
  | object h h' alike =>
    rw [Json.isSound, Json.isSound]
    refine congrArg _ (Bool.eq_iff_iff.mpr ?_)
    refine h.fieldsAreSound_iff.trans (Iff.trans ?_ h'.fieldsAreSound_iff.symm)
    clear h h'
    induction alike with
    | nil => simp
    | cons first _ ih =>
      rw [List.forall_mem_cons, List.forall_mem_cons, ih, first.2.isSound_eq]

/-- What a value says as a frame does not depend on its layout. -/
theorem FramesAlike.ofJson?_eq (h : FramesAlike v v') : Frame.ofJson? v = Frame.ofJson? v' := by
  cases h with
  | same => rfl
  | pair tag h => simp only [Frame.ofJson?, h.ofPayload?_eq]
  | @object known known' fields fields' h h' alike =>
    -- a kind and a payload are there once in both frames or in none of them
    have tags := only?_valuesNamed_alike "type" alike
    have payloads := only?_valuesNamed_alike "data" alike
    rw [← h.only?_eq (by decide), ← h'.only?_eq (by decide)] at tags payloads
    rw [Frame.ofJson?, Frame.ofJson?]
    generalize Frame.only? (Json.fieldsNamed "type" fields) = tag,
      Frame.only? (Json.fieldsNamed "type" fields') = tag',
      Frame.only? (Json.fieldsNamed "data" fields) = payload,
      Frame.only? (Json.fieldsNamed "data" fields') = payload' at tags payloads
    cases tags with
    | none => rfl
    | some tag =>
      cases payloads with
      | none => simp
      | some payload => simp [tag.kindOf?_eq, payload.ofPayload?_eq]

end Alike

/-! ### Frames with every field once -/

/-- A side as a list of levels, each a list of its price and its size. -/
def IsLevels (levels : List (String × String)) (v : Json) : Prop :=
  ∃ items, v = .array items ∧
    List.Forall₂ (fun l item => ∃ price size, item = .array [price, size] ∧
      price.text? = some l.1 ∧ size.text? = some l.2) levels items

/-- A payload with its three fields once, in any order and among others. -/
def Frame.PayloadLaidOut (f : Frame) (v : Json) : Prop :=
  ∃ symbol bids asks fields, v = .object fields ∧
    Spreads payloadNames payloadDepth [("s", symbol), ("b", bids), ("a", asks)] fields ∧
    symbol.text? = some f.symbol ∧ IsLevels f.bids bids ∧ IsLevels f.asks asks

/-- The frame as an object with its kind and its payload once, in any order and among others. -/
def Frame.LaidOut (f : Frame) (v : Json) : Prop :=
  ∃ tag payload fields, v = .object fields ∧
    Spreads frameNames frameDepth [("type", tag), ("data", payload)] fields ∧
    tag.text? = some f.kind.name ∧ f.PayloadLaidOut payload

section LaidOut

variable {f : Frame} {v : Json} {levels : List (String × String)}

theorem IsLevels.levelsOf?_eq (h : IsLevels levels v) : Frame.levelsOf? v = some levels := by
  obtain ⟨items, rfl, same⟩ := h
  rw [Frame.levelsOf?]
  induction same with
  | nil => rfl
  | cons first _ ih =>
    obtain ⟨price, size, rfl, priceRead, sizeRead⟩ := first
    simp [Frame.levelOf?, priceRead, sizeRead, ih]

theorem IsLevels.isSound (h : IsLevels levels v) : v.isSound payloadDepth := by
  obtain ⟨items, rfl, same⟩ := h
  have sound : Json.areSound (payloadDepth - 1) items := by
    induction same with
    | nil => rfl
    | cons first _ ih =>
      obtain ⟨price, size, rfl, priceRead, sizeRead⟩ := first
      simp [Json.areSound, Json.isSound, Json.isSound_of_text? priceRead,
        Json.isSound_of_text? sizeRead, ih]
      decide
  rw [Json.isSound, sound]
  rfl

theorem Frame.PayloadLaidOut.ofPayload?_eq (h : f.PayloadLaidOut v) :
    Frame.ofPayload? f.kind v = some f := by
  obtain ⟨symbol, bids, asks, fields, rfl, spread, named, bidsRead, asksRead⟩ := h
  have onlySymbol : Frame.only? (Json.fieldsNamed "s" fields) = some symbol :=
    spread.only?_eq (by decide)
  have onlyBids : Frame.only? (Json.fieldsNamed "b" fields) = some bids :=
    spread.only?_eq (by decide)
  have onlyAsks : Frame.only? (Json.fieldsNamed "a" fields) = some asks :=
    spread.only?_eq (by decide)
  simp [Frame.ofPayload?, Frame.ofParts?, onlySymbol, onlyBids, onlyAsks, named,
    bidsRead.levelsOf?_eq, asksRead.levelsOf?_eq]

theorem Frame.PayloadLaidOut.isSound (h : f.PayloadLaidOut v) : v.isSound frameDepth := by
  obtain ⟨symbol, bids, asks, fields, rfl, spread, named, bidsRead, asksRead⟩ := h
  have inside : Json.fieldsAreSound payloadDepth fields := spread.fieldsAreSound_iff.mpr (by
    simp [Json.isSound_of_text? named, bidsRead.isSound, asksRead.isSound])
  rw [Json.isSound]
  exact Bool.and_eq_true_iff.mpr ⟨by decide, inside⟩

theorem ofTag?_name (kind : UpdateKind) : UpdateKind.ofTag? kind.name = some kind := by
  cases kind <;> decide

/-- Every layout of a frame is that frame. -/
theorem Frame.LaidOut.ofJson?_eq (h : f.LaidOut v) : Frame.ofJson? v = some f := by
  obtain ⟨tag, payload, fields, rfl, spread, tagRead, payloadRead⟩ := h
  have onlyTag : Frame.only? (Json.fieldsNamed "type" fields) = some tag :=
    spread.only?_eq (by decide)
  have onlyPayload : Frame.only? (Json.fieldsNamed "data" fields) = some payload :=
    spread.only?_eq (by decide)
  simp [Frame.ofJson?, onlyTag, onlyPayload, Frame.kindOf?, tagRead, ofTag?_name,
    payloadRead.ofPayload?_eq]

theorem Frame.LaidOut.isSound (h : f.LaidOut v) : v.isSound Frame.maxDepth := by
  obtain ⟨tag, payload, fields, rfl, spread, tagRead, payloadRead⟩ := h
  have inside : Json.fieldsAreSound frameDepth fields := spread.fieldsAreSound_iff.mpr (by
    simp [Json.isSound_of_text? tagRead, payloadRead.isSound])
  rw [Json.isSound]
  exact Bool.and_eq_true_iff.mpr ⟨by decide, inside⟩

end LaidOut

/-! ### Texts that are no decimals -/

/-- The text is no decimal, white space around it aside. -/
def isUnreadable (text : String) : Bool := (Decimal.ofText? (Text.trim text)).isNone

/-- The texts of levels in their order, each price before its size. -/
def textsOf (levels : List (String × String)) : List String := levels.flatMap fun l => [l.1, l.2]

/-- The first text of a frame that is no decimal, bids before asks and prices before sizes. -/
def Frame.firstUnreadable? (f : Frame) : Option String :=
  (textsOf f.bids ++ textsOf f.asks).find? isUnreadable

/-- The level has the price and the size that two texts stand for. -/
def ReadsAs (texts : String × String) (l : Level) : Prop :=
  Decimal.ofText? (Text.trim texts.1) = some l.price ∧
    Decimal.ofText? (Text.trim texts.2) = some l.size

theorem parse_of_unreadable {text : String} (h : isUnreadable text) :
    Amount.parse text = .error (.invalidDecimal text) := by
  rw [Amount.parse, Option.isNone_iff_eq_none.mp h, orError_none]

theorem exists_parse {text : String} (h : ¬ isUnreadable text) :
    ∃ d, Decimal.ofText? (Text.trim text) = some d ∧ Amount.parse text = .ok d := by
  obtain ⟨d, read⟩ := Option.ne_none_iff_exists'.mp (mt Option.isNone_iff_eq_none.mpr h)
  exact ⟨d, read, by rw [Amount.parse, read, orError_some]⟩

/-- Levels are read in order, and the first text that is no decimal is named. -/
theorem readLevels_of_find? (levels : List (String × String)) :
    (∀ t, (textsOf levels).find? isUnreadable = some t →
      Frame.readLevels levels = .error (.invalidDecimal t)) ∧
    ((textsOf levels).find? isUnreadable = none →
      ∃ read, Frame.readLevels levels = .ok read ∧ List.Forall₂ ReadsAs levels read) := by
  induction levels with
  | nil => exact ⟨by simp [textsOf], fun _ => ⟨[], rfl, .nil⟩⟩
  | cons l rest ih =>
    have texts : textsOf (l :: rest) = l.1 :: l.2 :: textsOf rest := rfl
    rw [texts, Frame.readLevels]
    -- a price is reported before its size, and both before what comes behind
    by_cases price : isUnreadable l.1
    · rw [List.find?_cons_of_pos price, parse_of_unreadable price]
      exact ⟨fun t eq => Option.some.inj eq ▸ rfl, fun none => absurd none (Option.some_ne_none _)⟩
    obtain ⟨p, priceRead, priceParsed⟩ := exists_parse price
    rw [List.find?_cons_of_neg price, priceParsed, ok_bind]
    by_cases size : isUnreadable l.2
    · rw [List.find?_cons_of_pos size, parse_of_unreadable size]
      exact ⟨fun t eq => Option.some.inj eq ▸ rfl, fun none => absurd none (Option.some_ne_none _)⟩
    obtain ⟨q, sizeRead, sizeParsed⟩ := exists_parse size
    rw [List.find?_cons_of_neg size, sizeParsed, ok_bind]
    refine ⟨fun t first => ?_, fun clean => ?_⟩
    · rw [ih.1 t first, error_bind]
    · obtain ⟨read, parsed, same⟩ := ih.2 clean
      exact ⟨_, by rw [parsed, ok_bind], .cons ⟨priceRead, sizeRead⟩ same⟩

/-- The levels of a frame are read bids before asks, and the first text that is no decimal is
named. -/
theorem toUpdate_of_firstUnreadable? (f : Frame) :
    (∀ t, f.firstUnreadable? = some t → f.toUpdate = .error (.invalidDecimal t)) ∧
    (f.firstUnreadable? = none → ∃ bids asks, f.toUpdate = .ok ⟨f.kind, f.symbol, bids, asks⟩ ∧
      List.Forall₂ ReadsAs f.bids bids ∧ List.Forall₂ ReadsAs f.asks asks) := by
  obtain ⟨bidsFail, bidsRead⟩ := readLevels_of_find? f.bids
  obtain ⟨asksFail, asksRead⟩ := readLevels_of_find? f.asks
  rw [Frame.firstUnreadable?, List.find?_append, Frame.toUpdate]
  cases first : (textsOf f.bids).find? isUnreadable with
  | some t =>
    rw [bidsFail t first]
    exact ⟨fun t' eq => Option.some.inj eq ▸ rfl, fun none => absurd none (Option.some_ne_none _)⟩
  | none =>
    obtain ⟨bids, parsed, same⟩ := bidsRead first
    rw [parsed, ok_bind, Option.none_or]
    refine ⟨fun t second => by rw [asksFail t second, error_bind], fun clean => ?_⟩
    obtain ⟨asks, parsed', same'⟩ := asksRead clean
    exact ⟨bids, asks, by rw [parsed', ok_bind], same, same'⟩

/-! ### Texts in any layout -/

theorem Frame.ofText?_of_isText {v : Json} {raw : String} (text : Json.IsText v raw) :
    Frame.ofText? raw = if v.isSound Frame.maxDepth then Frame.ofJson? v else none := by
  rw [Frame.ofText?, Json.read?_of_isText text]

/-- A text in any layout that has every field of a frame once is that frame. Its update has the
kind, the instrument and the levels in their order, or else the first text that is no decimal is
named, bids before asks and prices before sizes. Texts that differ in the order of fields, in white
space and in fields that do not count come to the same, also where they are refused. -/
theorem ofText_of_layouts :
    (∀ (f : Frame) (v : Json) (raw : String), f.LaidOut v → Json.IsText v raw →
      Frame.ofText? raw = some f ∧
      (∀ t, f.firstUnreadable? = some t →
        Update.ofText raw = .error (.domain (.invalidDecimal t))) ∧
      (f.firstUnreadable? = none →
        ∃ bids asks, Update.ofText raw = .ok ⟨f.kind, f.symbol, bids, asks⟩ ∧
          List.Forall₂ ReadsAs f.bids bids ∧ List.Forall₂ ReadsAs f.asks asks)) ∧
    ∀ (v v' : Json) (raw raw' : String), FramesAlike v v' → Json.IsText v raw →
      Json.IsText v' raw' → Update.ofText raw = Update.ofText raw' := by
  constructor
  · intro f v raw laidOut text
    have frame : Frame.ofText? raw = some f := by
      rw [Frame.ofText?_of_isText text, if_pos laidOut.isSound, laidOut.ofJson?_eq]
    obtain ⟨fails, reads⟩ := toUpdate_of_firstUnreadable? f
    refine ⟨frame, fun t first => ?_, fun clean => ?_⟩
    · simp only [Update.ofText, frame, fails t first]
    · obtain ⟨bids, asks, update, same⟩ := reads clean
      exact ⟨bids, asks, by simp only [Update.ofText, frame, update], same⟩
  · intro v v' raw raw' alike text text'
    have frames : Frame.ofText? raw = Frame.ofText? raw' := by
      rw [Frame.ofText?_of_isText text, Frame.ofText?_of_isText text', alike.isSound_eq,
        alike.ofJson?_eq]
    rw [Update.ofText, Update.ofText, frames]

/-- A delta with this text as the size of its second ask. -/
def sampleDelta (size : String) : Frame where
  kind := .delta
  symbol := "BTCUSDC"
  bids := [(" 59000 ", "3")]
  asks := [("60001", "1"), ("60002", size)]

/-- The sides of the sample as values. -/
def sampleBids : Json := .array [.array [Json.ofText " 59000 ", Json.ofText "3"]]

/-- The asks of the sample as a value. -/
def sampleAsks (size : String) : Json :=
  .array [.array [Json.ofText "60001", Json.ofText "1"],
    .array [Json.ofText "60002", Json.ofText size]]

/-- The payload of the sample and nothing else. -/
def plainPayload (size : String) : List (List Json.CodeUnit × Json) :=
  [(Json.unitsOfText "s", Json.ofText "BTCUSDC"), (Json.unitsOfText "b", sampleBids),
   (Json.unitsOfText "a", sampleAsks size)]

/-- The payload of the sample with its asks first and an object between its fields. -/
def scatteredPayload (size : String) : List (List Json.CodeUnit × Json) :=
  [(Json.unitsOfText "a", sampleAsks size),
   (Json.unitsOfText "u", .object [(Json.unitsOfText "s", .null)]),
   (Json.unitsOfText "s", Json.ofText "BTCUSDC"), (Json.unitsOfText "b", sampleBids)]

/-- The sample as an object, its kind before its payload. -/
def plainFrame (size : String) : Json :=
  .object [(Json.unitsOfText "type", Json.ofText "delta"),
    (Json.unitsOfText "data", .object (plainPayload size))]

/-- The sample with its payload before its kind and a list before both. -/
def scatteredFrame (size : String) : Json :=
  .object [(Json.unitsOfText "ts", .array [.bool true]),
    (Json.unitsOfText "data", .object (scatteredPayload size)),
    (Json.unitsOfText "type", Json.ofText "delta")]

section Sample

variable (size : String)

theorem spreads_plainPayload : Spreads payloadNames payloadDepth
    [("s", Json.ofText "BTCUSDC"), ("b", sampleBids), ("a", sampleAsks size)]
    (plainPayload size) := by
  refine ⟨plainPayload size, [], by simp, ?_, nofun⟩
  simp [plainPayload, Json.textOfUnits?_unitsOfText]

theorem spreads_scatteredPayload : Spreads payloadNames payloadDepth
    [("s", Json.ofText "BTCUSDC"), ("b", sampleBids), ("a", sampleAsks size)]
    (scatteredPayload size) := by
  refine ⟨plainPayload size, [(Json.unitsOfText "u", .object [(Json.unitsOfText "s", .null)])],
    (List.perm_append_comm : ((scatteredPayload size).take 2 ++
      (scatteredPayload size).drop 2).Perm _), ?_, ?_⟩
  · simp [plainPayload, Json.textOfUnits?_unitsOfText]
  · simp only [List.forall_mem_singleton, Json.textOfUnits?_unitsOfText]
    exact ⟨⟨"u", rfl, by decide⟩, by decide⟩

theorem spreads_plainFrame : Spreads frameNames frameDepth
    [("type", Json.ofText "delta"), ("data", .object (plainPayload size))]
    [(Json.unitsOfText "type", Json.ofText "delta"),
      (Json.unitsOfText "data", .object (plainPayload size))] := by
  refine ⟨_, [], .of_eq (List.append_nil _).symm, ?_, nofun⟩
  simp [Json.textOfUnits?_unitsOfText]

theorem spreads_scatteredFrame : Spreads frameNames frameDepth
    [("type", Json.ofText "delta"), ("data", .object (scatteredPayload size))]
    [(Json.unitsOfText "ts", .array [.bool true]),
      (Json.unitsOfText "data", .object (scatteredPayload size)),
      (Json.unitsOfText "type", Json.ofText "delta")] := by
  refine ⟨[(Json.unitsOfText "type", Json.ofText "delta"),
      (Json.unitsOfText "data", .object (scatteredPayload size))],
    [(Json.unitsOfText "ts", .array [.bool true])], (List.reverse_perm _).symm, ?_, ?_⟩
  · simp [Json.textOfUnits?_unitsOfText]
  · simp only [List.forall_mem_singleton, Json.textOfUnits?_unitsOfText]
    exact ⟨⟨"ts", rfl, by decide⟩, by decide⟩

theorem laidOut_scatteredFrame : (sampleDelta size).LaidOut (scatteredFrame size) := by
  refine ⟨_, _, _, rfl, spreads_scatteredFrame size, Json.text?_ofText _, _, _, _, _, rfl,
    spreads_scatteredPayload size, Json.text?_ofText _, ⟨_, rfl, ?_⟩, ⟨_, rfl, ?_⟩⟩
  · exact .cons ⟨_, _, rfl, Json.text?_ofText _, Json.text?_ofText _⟩ .nil
  · exact .cons ⟨_, _, rfl, Json.text?_ofText _, Json.text?_ofText _⟩
      (.cons ⟨_, _, rfl, Json.text?_ofText _, Json.text?_ofText _⟩ .nil)

theorem framesAlike_sample : FramesAlike (plainFrame size) (scatteredFrame size) :=
  .object (spreads_plainFrame size) (spreads_scatteredFrame size)
    (.cons ⟨rfl, .same _⟩ (.cons ⟨rfl, .object (spreads_plainPayload size)
      (spreads_scatteredPayload size)⟩ .nil))

end Sample

/-- The plain sample as text. -/
def plainText (size : String) : String :=
  "\x7b\"type\":\"delta\",\"data\":\x7b\"s\":\"BTCUSDC\",\"b\":[[\" 59000 \",\"3\"]],"
    ++ "\"a\":[[\"60001\",\"1\"],[\"60002\",\"" ++ size ++ "\"]]\x7d\x7d"

/-- The scattered sample as text, with white space and an escaped letter. -/
def scatteredText (size : String) : String :=
  " \x7b \"ts\": [true],\n\"data\":\x7b\"a\":[[\"60001\",\"1\"],[\"60002\",\"" ++ size ++ "\"]],"
    ++ "\"u\":\x7b\"s\":null\x7d,\"s\":\"BTC\\u0055SDC\",\"b\":[[\" 59000 \",\"3\"]]\x7d\t,"
    ++ "\"type\":\"delta\" \x7d"

/-- Whatever its layout, the sample is refused for its size that is no decimal, and read when there
is none. -/
theorem ofText_of_layouts_of_sample :
    Frame.ofText? (scatteredText "many") = some (sampleDelta "many") ∧
    Update.ofText (scatteredText "many") = .error (.domain (.invalidDecimal "many")) ∧
    Update.ofText (plainText "many") = Update.ofText (scatteredText "many") ∧
    ∃ bids asks, Update.ofText (scatteredText "2") = .ok ⟨.delta, "BTCUSDC", bids, asks⟩ ∧
      List.Forall₂ ReadsAs [(" 59000 ", "3")] bids ∧
      List.Forall₂ ReadsAs [("60001", "1"), ("60002", "2")] asks := by
  have scattered : Json.IsText (scatteredFrame "many") (scatteredText "many") := by decide +kernel
  have readable : Json.IsText (scatteredFrame "2") (scatteredText "2") := by decide +kernel
  have plain : Json.IsText (plainFrame "many") (plainText "many") := by decide +kernel
  obtain ⟨holds, alike⟩ := ofText_of_layouts
  obtain ⟨frame, refused, -⟩ := holds _ _ _ (laidOut_scatteredFrame "many") scattered
  obtain ⟨-, -, reads⟩ := holds _ _ _ (laidOut_scatteredFrame "2") readable
  exact ⟨frame, refused "many" (by decide +kernel),
    alike _ _ _ _ (framesAlike_sample "many") plain scattered, reads (by decide +kernel)⟩

end Venue

end CrossBook
