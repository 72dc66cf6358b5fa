import CrossBook.Proofs.Failure
import CrossBook.Venue.Shelf

/-!
# What a shelf keeps of a stream

A frame is read in full before anything is written, so a frame that cannot be read, or that changes
a book that is not there, changes nothing. One that can be read changes the book of its instrument
only. A snapshot leaves nothing of the book it replaces: the book of an instrument is what its own
frames make of nothing, from its last snapshot on.

## Main definitions

* `Venue.updateOf?` — the update of an instrument that a frame holds
* `Venue.isFrameOf`, `Venue.isSnapshotOf` — frames of an instrument that can be read
* `Venue.framesSince` — the frames of an instrument from its last snapshot on
* `Venue.bookAfter` — what a frame makes of one book
* `Venue.Shelf.followAll` — the shelf after frames
* `Venue.Shelf.Refuses` — a frame cannot be read, or changes a book that is not there

## Main results

* `Venue.Shelf.receive_eq_error_iff` — exactly the refused frames fail
* `Venue.Shelf.get?_followAll` — what a stream makes of a book, it makes frame by frame
* `Venue.foldl_bookAfter_since` — what was before the last snapshot does not matter
* `Venue.Shelf.books_of_stream` — which books there are after a stream, and which they are
-/

namespace CrossBook.Venue

variable {symbol raw : String} {raws : List String} {u : Update} {s : Shelf} {before : Option Book}

/-! ### Frames that can be read -/

/-- A text that is a decimal. -/
def Readable (text : String) : Prop := ∃ d, Amount.parse text = .ok d

theorem Frame.readLevels_eq_ok_iff {texts : List (String × String)} :
    (∃ levels, Frame.readLevels texts = .ok levels) ↔
      ∀ t ∈ texts, Readable t.1 ∧ Readable t.2 := by
  induction texts with
  | nil => simp [Frame.readLevels]
  | cons t rest ih =>
    rw [List.forall_mem_cons, ← ih]
    simp only [Frame.readLevels, bind_eq_ok, Readable]
    constructor
    · rintro ⟨_, price, first, size, second, levels, later, -⟩
      exact ⟨⟨⟨price, first⟩, size, second⟩, levels, later⟩
    · rintro ⟨⟨⟨price, first⟩, size, second⟩, levels, later⟩
      exact ⟨_, price, first, size, second, levels, later, rfl⟩

/-- A frame is an update when every text in it is a decimal. -/
theorem Frame.toUpdate_eq_ok_iff {f : Frame} :
    (∃ u, f.toUpdate = .ok u) ↔ ∀ t ∈ f.bids ++ f.asks, Readable t.1 ∧ Readable t.2 := by
  rw [List.forall_mem_append, ← Frame.readLevels_eq_ok_iff, ← Frame.readLevels_eq_ok_iff]
  simp only [Frame.toUpdate, bind_eq_ok]
  constructor
  · rintro ⟨_, bids, first, asks, second, -⟩
    exact ⟨⟨bids, first⟩, asks, second⟩
  · rintro ⟨⟨bids, first⟩, asks, second⟩
    exact ⟨_, bids, first, asks, second, rfl⟩

theorem Update.ofText_eq_ok_iff :
    Update.ofText raw = .ok u ↔ ∃ f, Frame.ofText? raw = some f ∧ f.toUpdate = .ok u := by
  unfold Update.ofText
  cases Frame.ofText? raw with
  | none => simp
  | some f => cases read : f.toUpdate <;> simp [read]

/-! ### Frames by instrument -/

/-- The update of an instrument that a frame holds. -/
def updateOf? (symbol raw : String) : Option Update :=
  (Update.ofText raw).toOption.filter fun u => u.symbol = symbol

/-- The frame can be read, and it is of the instrument. -/
def isFrameOf (symbol raw : String) : Bool := (updateOf? symbol raw).isSome

/-- The frame can be read, and it is a snapshot of the instrument. -/
def isSnapshotOf (symbol raw : String) : Bool :=
  (updateOf? symbol raw).any fun u => u.kind = .snapshot

/-- The frames of an instrument that can be read, from its last snapshot on. -/
def framesSince (symbol : String) : List String → List String
  | [] => []
  | raw :: rest =>
    if rest.any (isSnapshotOf symbol) then framesSince symbol rest
    else if isSnapshotOf symbol raw then raw :: rest.filter (isFrameOf symbol)
    else []

theorem updateOf?_eq_some_iff :
    updateOf? symbol raw = some u ↔ Update.ofText raw = .ok u ∧ u.symbol = symbol := by
  unfold updateOf?
  rw [Option.filter_eq_some_iff]
  cases Update.ofText raw <;> simp [Except.toOption]

/-- A frame is of one instrument. -/
theorem updateOf?_of_ne {other : String} (h : Update.ofText raw = .ok u)
    (differ : u.symbol ≠ other) :
    updateOf? other raw = none := by
  rw [Option.eq_none_iff_forall_ne_some]
  intro v found
  obtain ⟨same, rfl⟩ := updateOf?_eq_some_iff.mp found
  cases h.symm.trans same
  exact differ rfl

theorem isSnapshotOf_iff :
    isSnapshotOf symbol raw ↔ ∃ u, updateOf? symbol raw = some u ∧ u.kind = .snapshot := by
  simp [isSnapshotOf, Option.any_eq_true_iff_get, Option.eq_some_iff_get_eq]

/-! ### One book -/

/-- What a frame makes of the book of an instrument, or of its absence. -/
def bookAfter (symbol : String) (before : Option Book) (raw : String) : Option Book :=
  match updateOf? symbol raw, before with
  | none, _ => before
  | some u, some b => some (b.apply u)
  | some u, none => if u.kind = .snapshot then some ((Book.empty symbol).apply u) else none

theorem symbol_modify (b : Book) (side : Side) (f : List Level → List Level) :
    (b.modify side f).symbol = b.symbol := by cases side <;> rfl

theorem symbol_upsert (b : Book) (side : Side) (l : Level) :
    (b.upsert side l).symbol = b.symbol := by
  unfold Book.upsert Book.remove
  split <;> simp only [symbol_modify]

theorem symbol_apply (b : Book) (u : Update) : (b.apply u).symbol = b.symbol := by
  have upserts : ∀ (side : Side) (levels : List Level) (b : Book),
      (levels.foldl (fun b l => b.upsert side l) b).symbol = b.symbol := by
    intro side levels
    induction levels with
    | nil => exact fun b => rfl
    | cons l rest ih => exact fun b => (ih _).trans (symbol_upsert b side l)
  unfold Book.apply
  cases u.kind with
  | snapshot => rfl
  | delta => exact (upserts .ask u.asks _).trans (upserts .bid u.bids b)

/-- A book that is labelled with its instrument, or no book. -/
def Labelled (symbol : String) (before : Option Book) : Prop := ∀ b ∈ before, b.symbol = symbol

theorem Labelled.after (h : Labelled symbol before) (raw : String) :
    Labelled symbol (bookAfter symbol before raw) := by
  intro b after
  unfold bookAfter at after
  split at after
  · exact h b after
  · obtain rfl := Option.some.inj after
    exact (symbol_apply _ _).trans (h _ rfl)
  · split_ifs at after
    · obtain rfl := Option.some.inj after
      exact symbol_apply _ _
    · cases after

/-- A snapshot leaves nothing of the book it replaces. -/
theorem bookAfter_of_snapshot (h : Labelled symbol before) (snapshot : isSnapshotOf symbol raw) :
    ∃ b, bookAfter symbol before raw = some b ∧ bookAfter symbol none raw = some b := by
  obtain ⟨u, found, kind⟩ := isSnapshotOf_iff.mp snapshot
  refine ⟨(Book.empty symbol).apply u, ?_, by simp [bookAfter, found, kind]⟩
  cases before with
  | none => simp [bookAfter, found, kind]
  | some b =>
    have label : b.symbol = symbol := h b rfl
    simp [bookAfter, found, kind, Book.apply, Book.replace, Book.empty, label]

theorem bookAfter_of_not_frame (h : isFrameOf symbol raw = false) :
    bookAfter symbol before raw = before := by
  have absent : updateOf? symbol raw = none := by simpa [isFrameOf] using h
  simp [bookAfter, absent]

/-- Only the frames of an instrument change its book. -/
theorem foldl_bookAfter_filter (raws : List String) (before : Option Book) :
    (raws.filter (isFrameOf symbol)).foldl (bookAfter symbol) before =
      raws.foldl (bookAfter symbol) before := by
  induction raws generalizing before with
  | nil => rfl
  | cons raw rest ih =>
    cases frame : isFrameOf symbol raw with
    | false =>
      rw [List.filter_cons_of_neg (by simp [frame]), ih, List.foldl_cons,
        bookAfter_of_not_frame frame]
    | true =>
      rw [List.filter_cons_of_pos frame, List.foldl_cons, ih, List.foldl_cons]

/-- Without a snapshot there is no first book. -/
theorem foldl_bookAfter_eq_none (h : raws.any (isSnapshotOf symbol) = false) :
    raws.foldl (bookAfter symbol) none = none := by
  induction raws with
  | nil => rfl
  | cons raw rest ih =>
    rw [List.any_cons, Bool.or_eq_false_iff] at h
    have stays : bookAfter symbol none raw = none := by
      unfold bookAfter
      cases found : updateOf? symbol raw with
      | none => rfl
      | some u =>
        refine if_neg fun kind => ?_
        exact Bool.false_ne_true (h.1.symm.trans (isSnapshotOf_iff.mpr ⟨u, found, kind⟩))
    rw [List.foldl_cons, stays]
    exact ih h.2

/-- No frame takes a book away. -/
theorem exists_bookAfter (symbol : String) (b : Book) (raw : String) :
    ∃ b', bookAfter symbol (some b) raw = some b' := by
  unfold bookAfter
  cases updateOf? symbol raw with
  | none => exact ⟨b, rfl⟩
  | some u => exact ⟨b.apply u, rfl⟩

theorem foldl_bookAfter_isSome (before : Book) (raws : List String) :
    (raws.foldl (bookAfter symbol) (some before)).isSome := by
  induction raws generalizing before with
  | nil => rfl
  | cons raw rest ih =>
    obtain ⟨b, after⟩ := exists_bookAfter symbol before raw
    rw [List.foldl_cons, after]
    exact ih b

/-- Whatever was before the last snapshot, the book is what the frames from it on make of
nothing. -/
theorem foldl_bookAfter_since (h : Labelled symbol before)
    (snapshot : raws.any (isSnapshotOf symbol)) :
    raws.foldl (bookAfter symbol) before =
      (framesSince symbol raws).foldl (bookAfter symbol) none := by
  induction raws generalizing before with
  | nil => cases snapshot
  | cons raw rest ih =>
    rw [List.foldl_cons, framesSince]
    -- Either the last snapshot is still to come, or this frame is it.
    by_cases later : rest.any (isSnapshotOf symbol)
    · rw [if_pos later]
      exact ih (h.after raw) later
    · have here : isSnapshotOf symbol raw := by simpa [later] using snapshot
      obtain ⟨b, after, fresh⟩ := bookAfter_of_snapshot h here
      rw [if_neg later, if_pos here, List.foldl_cons, after, fresh, foldl_bookAfter_filter]

theorem framesSince_eq_nil (h : raws.any (isSnapshotOf symbol) = false) :
    framesSince symbol raws = [] := by
  cases raws with
  | nil => rfl
  | cons raw rest =>
    rw [List.any_cons, Bool.or_eq_false_iff] at h
    simp [framesSince, h]

/-- There is a book once there was a snapshot. -/
theorem foldl_bookAfter_isSome_iff (raws : List String) :
    (raws.foldl (bookAfter symbol) none).isSome ↔ raws.any (isSnapshotOf symbol) := by
  cases found : raws.any (isSnapshotOf symbol) with
  | false => simp [foldl_bookAfter_eq_none found]
  | true =>
    obtain ⟨raw, member, here⟩ := List.any_eq_true.mp found
    obtain ⟨first, rest, rfl⟩ := List.append_of_mem member
    obtain ⟨b, after⟩ : ∃ b,
        bookAfter symbol (first.foldl (bookAfter symbol) none) raw = some b := by
      cases first.foldl (bookAfter symbol) none with
      | some b => exact exists_bookAfter symbol b raw
      | none =>
        obtain ⟨u, found, kind⟩ := isSnapshotOf_iff.mp here
        exact ⟨(Book.empty symbol).apply u, by simp [bookAfter, found, kind]⟩
    rw [List.foldl_append, List.foldl_cons, after]
    exact iff_of_true (foldl_bookAfter_isSome b rest) rfl

namespace Shelf

/-! ### All books -/

/-- The shelf after frames. -/
def followAll (s : Shelf) (raws : List String) : Shelf := raws.foldl follow s

/-- The frame is none, some text in it is no decimal, or it changes a book that is not there. -/
def Refuses (s : Shelf) (raw : String) : Prop :=
  Frame.ofText? raw = none ∨
  (∃ f, Frame.ofText? raw = some f ∧ ∃ t ∈ f.bids ++ f.asks, ¬ (Readable t.1 ∧ Readable t.2)) ∨
  ∃ u, Update.ofText raw = .ok u ∧ u.kind = .delta ∧ s.get? u.symbol = none

theorem apply_eq_error_iff :
    (∃ e, s.apply u = .error e) ↔ u.kind = .delta ∧ s.get? u.symbol = none := by
  unfold apply
  cases s.get? u.symbol <;> cases u.kind <;> simp

/-- A frame fails exactly when it is refused. -/
theorem receive_eq_error_iff : (∃ e, s.receive raw = .error e) ↔ s.Refuses raw := by
  unfold receive Refuses
  cases decoded : Update.ofText raw with
  | ok u =>
    obtain ⟨f, frame, read⟩ := Update.ofText_eq_ok_iff.mp decoded
    have readable := Frame.toUpdate_eq_ok_iff.mp ⟨u, read⟩
    simp only [frame, apply_eq_error_iff, reduceCtorEq, Option.some.injEq, Except.ok.injEq,
      exists_eq_left', false_or]
    refine (or_iff_right ?_).symm
    rintro ⟨t, member, bad⟩
    exact bad (readable t member)
  | error e =>
    refine iff_of_true ⟨e, rfl⟩ ?_
    cases frame : Frame.ofText? raw with
    | none => exact .inl rfl
    | some f =>
      refine .inr (.inl ⟨f, rfl, ?_⟩)
      by_contra! readable
      obtain ⟨u, read⟩ := Frame.toUpdate_eq_ok_iff.mpr readable
      cases decoded.symm.trans (Update.ofText_eq_ok_iff.mpr ⟨f, frame, read⟩)

theorem follow_of_refuses (h : s.Refuses raw) : s.follow raw = s := by
  obtain ⟨e, failed⟩ := receive_eq_error_iff.mpr h
  rw [follow, failed]

/-- A frame that can be read writes the book of its instrument. -/
theorem follow_eq (decoded : Update.ofText raw = .ok u) :
    s.follow raw = match bookAfter u.symbol (s.get? u.symbol) raw with
      | some b => s.insert u.symbol b
      | none => s := by
  have found : updateOf? u.symbol raw = some u := updateOf?_eq_some_iff.mpr ⟨decoded, rfl⟩
  cases held : s.get? u.symbol <;> cases kind : u.kind <;>
    simp [follow, receive, apply, bookAfter, decoded, found, held, kind]

theorem get?_follow (s : Shelf) (raw symbol : String) :
    (s.follow raw).get? symbol = bookAfter symbol (s.get? symbol) raw := by
  cases decoded : Update.ofText raw with
  | error e =>
    have absent : updateOf? symbol raw = none := by simp [updateOf?, decoded, Except.toOption]
    simp [follow, receive, decoded, bookAfter, absent]
  | ok u =>
    rw [follow_eq decoded]
    by_cases same : u.symbol = symbol
    · obtain rfl := same
      cases after : bookAfter u.symbol (s.get? u.symbol) raw with
      | some b => exact Table.get?_insert_self s u.symbol b
      | none =>
        -- No book is written, so there was none before.
        cases held : s.get? u.symbol with
        | none => rfl
        | some b =>
          obtain ⟨b', kept⟩ := exists_bookAfter u.symbol b raw
          rw [held, kept] at after
          cases after
    · have stays : bookAfter symbol (s.get? symbol) raw = s.get? symbol := by
        simp [bookAfter, updateOf?_of_ne decoded same]
      rw [stays]
      cases bookAfter u.symbol (s.get? u.symbol) raw with
      | some b => exact Table.get?_insert_of_ne s (Ne.symm same) b
      | none => rfl

theorem get?_followAll (s : Shelf) (raws : List String) (symbol : String) :
    (s.followAll raws).get? symbol = raws.foldl (bookAfter symbol) (s.get? symbol) := by
  induction raws generalizing s with
  | nil => rfl
  | cons raw rest ih =>
    rw [followAll, List.foldl_cons, List.foldl_cons, ← get?_follow]
    exact ih (s.follow raw)

/-- After any stream there is a book of an instrument exactly when one of its snapshots could be
read. The book is what the frames of the instrument make of nothing from its last snapshot on, and
the frames of other instruments do not matter to it. A frame fails when it is none, when some text
in it is no decimal or when it changes a book that is not there, and then leaves all books as they
were. -/
theorem books_of_stream (raws : List String) :
    (∀ symbol, ((followAll .empty raws).get? symbol).isSome ↔
      ∃ raw ∈ raws, isSnapshotOf symbol raw) ∧
    (∀ symbol, (followAll .empty raws).get? symbol =
      (followAll .empty (framesSince symbol raws)).get? symbol) ∧
    (∀ symbol, (followAll .empty raws).get? symbol =
      (followAll .empty (raws.filter (isFrameOf symbol))).get? symbol) ∧
    ∀ raw, ((∃ e, (followAll .empty raws).receive raw = .error e) ↔
        (followAll .empty raws).Refuses raw) ∧
      ((followAll .empty raws).Refuses raw →
        followAll .empty (raws ++ [raw]) = followAll .empty raws) := by
  simp only [get?_followAll, Table.get?_empty]
  refine ⟨fun symbol => ?_, fun symbol => ?_, fun symbol => ?_,
    fun raw => ⟨receive_eq_error_iff, fun refused => ?_⟩⟩
  · rw [foldl_bookAfter_isSome_iff, List.any_eq_true]
  · cases snapshot : raws.any (isSnapshotOf symbol) with
    | true => exact foldl_bookAfter_since (fun _ none_mem => nomatch none_mem) snapshot
    | false => rw [foldl_bookAfter_eq_none snapshot, framesSince_eq_nil snapshot, List.foldl_nil]
  · exact (foldl_bookAfter_filter raws none).symm
  · rw [followAll, List.foldl_append, List.foldl_cons, List.foldl_nil]
    exact follow_of_refuses refused

/-- A frame with the levels of one side as it comes. -/
def sampleFrame (kind symbol bids : String) : String :=
  "\x7b\"type\":\"" ++ kind ++ "\",\"data\":\x7b\"s\":\"" ++ symbol ++ "\",\"b\":[" ++ bids
    ++ "],\"a\":[]\x7d\x7d"

/-- Two snapshots and a delta of one instrument, and a snapshot of another. -/
def sampleStream : List String :=
  [sampleFrame "snapshot" "BTCUSDC" "[\"9\",\"1\"]",
    sampleFrame "snapshot" "BTCUSDC" "[\"7\",\"1\"]",
    sampleFrame "snapshot" "ETHUSDC" "[\"3\",\"1\"]", sampleFrame "delta" "BTCUSDC" "[\"8\",\"2\"]"]

/-- A delta whose second size is no decimal. -/
def sampleFault : String := sampleFrame "delta" "BTCUSDC" "[\"7\",\"0\"],[\"6\",\"much\"]"

/-- The faulty delta is refused, and the book has the levels of the second snapshot and the delta
after it. -/
theorem books_of_stream_of_sample :
    (followAll .empty sampleStream).Refuses sampleFault ∧
    followAll .empty (sampleStream ++ [sampleFault]) = followAll .empty sampleStream ∧
    (followAll .empty sampleStream).get? "BTCUSDC" =
      (followAll .empty [sampleFrame "snapshot" "BTCUSDC" "[\"7\",\"1\"]",
        sampleFrame "delta" "BTCUSDC" "[\"8\",\"2\"]"]).get? "BTCUSDC" ∧
    ((followAll .empty sampleStream).get? "BTCUSDC").isSome := by
  obtain ⟨held, since, -, faults⟩ := books_of_stream sampleStream
  have frames : framesSince "BTCUSDC" sampleStream =
      [sampleFrame "snapshot" "BTCUSDC" "[\"7\",\"1\"]",
        sampleFrame "delta" "BTCUSDC" "[\"8\",\"2\"]"] := by decide +kernel
  have refused : (followAll .empty sampleStream).Refuses sampleFault := by
    have failed : ((followAll .empty sampleStream).receive sampleFault).toOption.isNone := by
      decide +kernel
    refine (faults sampleFault).1.mp ?_
    cases result : (followAll .empty sampleStream).receive sampleFault with
    | error e => exact ⟨e, rfl⟩
    | ok s => simp [result, Except.toOption] at failed
  refine ⟨refused, (faults sampleFault).2 refused, ?_, (held "BTCUSDC").mpr ?_⟩
  · rw [← frames]
    exact since "BTCUSDC"
  · exact List.any_eq_true.mp (by decide +kernel : sampleStream.any (isSnapshotOf "BTCUSDC"))

end Shelf

end CrossBook.Venue
