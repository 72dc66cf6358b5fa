import CrossBook.Proofs.Venue.Book
import CrossBook.Venue.Shelf
import Mathlib.Data.List.Forall2

/-!
# Writes by price

A write changes a book price by price: what is kept at a price after a write is what the part of the
write at that price makes of what was kept there before. So writes may change places as long as the
parts at each price keep their order, and a snapshot in which no price occurs twice may be written
level by level.

Decimals are told apart by value or entirely, and what is said here holds of both.

## Main definitions

* `Decimal.IsSameness` — a relation between being one decimal and having the same value
* `Venue.Levels.atPrice`, `Venue.Book.atPrice`, `Venue.Write.atPrice?` — what is at one price
* `Venue.Book.Alike` — books that list the same

## Main results

* `Venue.Book.atPrice_writeAll` — what writes leave at a price is what their parts there leave
* `Venue.Levels.IsPriority.forall₂_mergeSort` — the sorted levels are known by what is at each price
* `Venue.Book.listed_by_price` — writes with the same parts in the same order leave the same book,
  and a snapshot is its levels in any order
-/

namespace CrossBook

@[simp] theorem Decimal.sameValue_self (a : Decimal) : a.SameValue a := rfl

/-- A relation of decimals that all have the same value, and that relates every decimal to
itself. -/
structure Decimal.IsSameness (R : Decimal → Decimal → Prop) : Prop where
  refl : ∀ a, R a a
  sameValue : ∀ {a b}, R a b → a.SameValue b

theorem Decimal.isSameness_eq : IsSameness Eq := ⟨fun _ => rfl, fun same => same ▸ rfl⟩

theorem Decimal.isSameness_sameValue : IsSameness SameValue := ⟨sameValue_self, id⟩

namespace Venue

variable {R : Decimal → Decimal → Prop} {l l' m : Level} {levels levels' kept kept' : List Level}
  {price : Decimal} {b b' c : Book} {w w' : Write} {writes writes' : List Write}

/-! ### What is at a price -/

namespace Levels

/-- The levels at a price. -/
def atPrice (price : Decimal) (levels : List Level) : List Level :=
  levels.filter fun l => l.price.SameValue price

theorem mem_atPrice : l ∈ atPrice price levels ↔ l ∈ levels ∧ l.price.SameValue price := by
  simp [atPrice]

@[simp] theorem atPrice_nil : atPrice price [] = [] := rfl

theorem atPrice_cons : atPrice price (l :: levels) =
    if l.price.SameValue price then l :: atPrice price levels else atPrice price levels := by
  simp [atPrice, List.filter_cons]

@[simp] theorem atPrice_cons_self :
    atPrice l.price (l :: levels) = l :: atPrice l.price levels := by
  rw [atPrice_cons, if_pos l.price.sameValue_self]

theorem atPrice_append :
    atPrice price (levels ++ kept) = atPrice price levels ++ atPrice price kept :=
  List.filter_append ..

theorem atPrice_insert : atPrice price (insert l levels) =
    if l.price.SameValue price then insert l (atPrice price levels) else atPrice price levels := by
  induction levels with
  | nil => simp [insert, atPrice_cons]
  | cons h rest ih =>
    by_cases same : h.price.SameValue l.price
    · have through : h.price.SameValue price ↔ l.price.SameValue price :=
        ⟨fun here => same.symm.trans here, fun here => same.trans here⟩
      simp only [insert, if_pos same, atPrice_cons, through]
      split_ifs with here
      · simp [insert, same]
      · rfl
    · simp only [insert, if_neg same, atPrice_cons, ih]
      split_ifs with first second
      · exact absurd (first.trans second.symm) same
      · rfl
      · rfl
      · rfl

theorem atPrice_erase {other : Decimal} : atPrice price (erase other levels) =
    if other.SameValue price then erase other (atPrice price levels) else atPrice price levels := by
  unfold atPrice erase
  split_ifs with same
  · exact List.filter_comm _ _ _
  · rw [List.filter_filter]
    refine List.filter_congr fun l _ => ?_
    by_cases here : l.price.SameValue price
    · have away : ¬ l.price.SameValue other := fun there => same (there.symm.trans here)
      simp [here, away]
    · simp [here]

theorem hasPrice_atPrice {other : Decimal} (same : other.SameValue price) :
    hasPrice other (atPrice price levels) = hasPrice other levels := by
  have through : ∀ l : Level, l.price.SameValue other → l.price.SameValue price :=
    fun l here => Eq.trans here same
  unfold hasPrice atPrice
  rw [List.any_filter]
  congr
  funext l
  by_cases here : l.price.SameValue other
  · simp [here, through l here]
  · simp [here]

theorem ofList_concat : ofList (levels ++ [l]) =
    if l.isVoid then ofList levels else insert l (ofList levels) := by
  simp [ofList]

theorem atPrice_ofList : atPrice price (ofList levels) = ofList (atPrice price levels) := by
  induction levels using List.reverseRecOn with
  | nil => rfl
  | append_singleton levels l ih =>
    rw [ofList_concat, atPrice_append, atPrice_cons, atPrice_nil]
    by_cases here : l.price.SameValue price
    · rw [if_pos here, ofList_concat, apply_ite (atPrice price), atPrice_insert, if_pos here, ih]
    · rw [if_neg here, List.append_nil, apply_ite (atPrice price), atPrice_insert, if_neg here,
        ite_self, ih]

end Levels

/-- What is at a price of a book. -/
def Book.atPrice (b : Book) (price : Decimal) : Book :=
  ⟨b.symbol, Levels.atPrice price b.bids, Levels.atPrice price b.asks⟩

/-- The part of a write at a price. -/
def Write.atPrice? (price : Decimal) : Write → Option Write
  | upsert side l => if l.price.SameValue price then some (upsert side l) else none
  | remove side other => if other.SameValue price then some (remove side other) else none
  | replace bids asks => some (replace (Levels.atPrice price bids) (Levels.atPrice price asks))

namespace Book

theorem atPrice_remove (side : Side) (other : Decimal) :
    (b.remove side other).atPrice price =
      if other.SameValue price then (b.atPrice price).remove side other else b.atPrice price := by
  cases side <;>
    · simp only [remove, modify, atPrice, Levels.atPrice_erase]
      split_ifs <;> rfl

theorem atPrice_upsert (side : Side) (l : Level) :
    (b.upsert side l).atPrice price =
      if l.price.SameValue price then (b.atPrice price).upsert side l else b.atPrice price := by
  unfold upsert
  by_cases void : l.isVoid
  · simp only [if_pos void]
    exact atPrice_remove side l.price
  · simp only [if_neg void]
    have inserted : ∀ c : Book, (c.modify side (Levels.insert l)).atPrice price =
        if l.price.SameValue price then (c.atPrice price).modify side (Levels.insert l)
        else c.atPrice price := by
      intro c
      cases side <;>
        · simp only [modify, atPrice, Levels.atPrice_insert]
          split_ifs <;> rfl
    rw [inserted, atPrice_remove]
    split_ifs <;> rfl

theorem atPrice_replace (bids asks : List Level) :
    (b.replace bids asks).atPrice price =
      (b.atPrice price).replace (Levels.atPrice price bids) (Levels.atPrice price asks) := by
  have left_out : Levels.atPrice price
      (asks.filter fun l => !Levels.hasPrice l.price (Levels.ofList bids)) =
        (Levels.atPrice price asks).filter fun l =>
          !Levels.hasPrice l.price (Levels.ofList (Levels.atPrice price bids)) := by
    rw [Levels.atPrice, List.filter_comm]
    refine List.filter_congr fun l member => ?_
    rw [← Levels.atPrice_ofList, Levels.hasPrice_atPrice (Levels.mem_atPrice.mp member).2]
  simp only [replace, atPrice, Levels.atPrice_ofList, left_out]

/-- A write leaves at a price what its part there makes of what was there. -/
theorem atPrice_write (b : Book) (w : Write) (price : Decimal) :
    (b.write w).atPrice price =
      (w.atPrice? price).elim (b.atPrice price) (b.atPrice price).write := by
  cases w with
  | upsert side l =>
    rw [write, atPrice_upsert, Write.atPrice?]
    split_ifs <;> rfl
  | remove side other =>
    rw [write, atPrice_remove, Write.atPrice?]
    split_ifs <;> rfl
  | replace bids asks => exact atPrice_replace bids asks

/-- Writes leave at a price what their parts there make of what was there. -/
theorem atPrice_writeAll (b : Book) (writes : List Write) (price : Decimal) :
    (b.writeAll writes).atPrice price =
      (b.atPrice price).writeAll (writes.filterMap (Write.atPrice? price)) := by
  induction writes generalizing b with
  | nil => rfl
  | cons w rest ih =>
    have step := atPrice_write b w price
    rw [writeAll, List.foldl_cons, ← writeAll, ih, step]
    cases part : w.atPrice? price with
    | none => rw [List.filterMap_cons_none part, Option.elim_none]
    | some part' =>
      rw [List.filterMap_cons_some part, Option.elim_some]
      rfl

end Book

/-! ### Books that are kept alike -/

/-- Levels with prices and sizes that are alike. -/
structure Level.Alike (R : Decimal → Decimal → Prop) (l l' : Level) : Prop where
  price : R l.price l'.price
  size : R l.size l'.size

/-- Writes of one kind with levels that are alike. -/
inductive Write.Alike (R : Decimal → Decimal → Prop) : Write → Write → Prop
  | upsert (side : Side) {l l' : Level} (level : l.Alike R l') :
      Alike R (.upsert side l) (.upsert side l')
  | remove (side : Side) {price price' : Decimal} (prices : R price price') :
      Alike R (.remove side price) (.remove side price')
  | replace {bids bids' asks asks' : List Level}
      (bids_alike : List.Forall₂ (Level.Alike R) bids bids')
      (asks_alike : List.Forall₂ (Level.Alike R) asks asks') :
      Alike R (.replace bids asks) (.replace bids' asks')

/-- Books that list the same: in priority order the levels of each side are alike. -/
structure Book.Alike (R : Decimal → Decimal → Prop) (b b' : Book) : Prop where
  symbol_eq : b.symbol = b'.symbol
  bids : List.Forall₂ (Level.Alike R) b.bidsDescending b'.bidsDescending
  asks : List.Forall₂ (Level.Alike R) b.asksAscending b'.asksAscending

/-- Books that hold alike levels in the same places. -/
structure Book.KeptAlike (R : Decimal → Decimal → Prop) (b b' : Book) : Prop where
  symbol_eq : b.symbol = b'.symbol
  levels : ∀ side, List.Forall₂ (Level.Alike R) (b.levels side) (b'.levels side)

section Sameness

variable (sameness : Decimal.IsSameness R)

include sameness

theorem Level.Alike.refl (l : Level) : l.Alike R l := ⟨sameness.refl l.price, sameness.refl l.size⟩

theorem Level.Alike.isVoid_iff (h : l.Alike R l') : l.isVoid ↔ l'.isVoid := by
  have same := sameness.sameValue h.size
  unfold isVoid
  rw [same]

theorem sameValue_congr {x x' y y' : Decimal} (hx : R x x') (hy : R y y') :
    x.SameValue y ↔ x'.SameValue y' := by
  have left := sameness.sameValue hx
  have right := sameness.sameValue hy
  unfold Decimal.SameValue at *
  rw [left, right]

namespace Levels

theorem alike_insert (level : l.Alike R l') (h : List.Forall₂ (Level.Alike R) levels levels') :
    List.Forall₂ (Level.Alike R) (insert l levels) (insert l' levels') := by
  induction h with
  | nil => exact .cons level .nil
  | @cons first first' rest rest' alike rest_alike ih =>
    have same := sameValue_congr sameness alike.price level.price
    unfold insert
    split_ifs with here there there
    · exact .cons ⟨alike.price, level.size⟩ rest_alike
    · exact absurd (same.mp here) there
    · exact absurd (same.mpr there) here
    · exact .cons alike ih

theorem alike_erase {other other' : Decimal} (prices : R other other')
    (h : List.Forall₂ (Level.Alike R) levels levels') :
    List.Forall₂ (Level.Alike R) (erase other levels) (erase other' levels') := by
  refine List.rel_filter (fun l l' alike => ?_) h
  simpa using not_congr (sameValue_congr sameness alike.price prices)

theorem alike_ofList (h : List.Forall₂ (Level.Alike R) levels levels') :
    List.Forall₂ (Level.Alike R) (ofList levels) (ofList levels') := by
  refine List.rel_foldl (fun kept kept' alike l l' level => ?_) .nil h
  have void := level.isVoid_iff sameness
  by_cases here : l.isVoid
  · rwa [if_pos here, if_pos (void.mp here)]
  · rw [if_neg here, if_neg (mt void.mpr here)]
    exact alike_insert sameness level alike

theorem hasPrice_congr_alike {other other' : Decimal} (prices : R other other')
    (h : List.Forall₂ (Level.Alike R) levels levels') :
    hasPrice other levels = hasPrice other' levels' := by
  induction h with
  | nil => rfl
  | cons alike _ ih =>
    have same := sameValue_congr sameness alike.price prices
    rw [hasPrice, List.any_cons, ← hasPrice, ih, hasPrice, hasPrice, List.any_cons]
    simp only [same]

end Levels

namespace Book

theorem KeptAlike.refl (b : Book) : b.KeptAlike R b :=
  ⟨rfl, fun _ => List.forall₂_same.mpr fun l _ => Level.Alike.refl sameness l⟩

omit sameness in
theorem KeptAlike.modify {f f' : List Level → List Level} (h : b.KeptAlike R b') (side : Side)
    (alike : ∀ levels levels', List.Forall₂ (Level.Alike R) levels levels' →
      List.Forall₂ (Level.Alike R) (f levels) (f' levels')) :
    (b.modify side f).KeptAlike R (b'.modify side f') := by
  refine ⟨?_, fun other => ?_⟩
  · cases side <;> exact h.symbol_eq
  · rw [levels_modify, levels_modify]
    split_ifs
    · exact alike _ _ (h.levels other)
    · exact h.levels other

theorem KeptAlike.remove (h : b.KeptAlike R b') (side : Side) {other other' : Decimal}
    (prices : R other other') : (b.remove side other).KeptAlike R (b'.remove side other') :=
  h.modify side fun _ _ => Levels.alike_erase sameness prices

theorem KeptAlike.write (h : b.KeptAlike R b') (same : w.Alike R w') :
    (b.write w).KeptAlike R (b'.write w') := by
  cases same with
  | remove side prices => exact h.remove sameness side prices
  | @upsert side l l' level =>
    have void := level.isVoid_iff sameness
    simp only [Book.write, upsert]
    split_ifs with here there there
    · exact h.remove sameness side level.price
    · exact absurd (void.mp here) there
    · exact absurd (void.mpr there) here
    · exact (h.remove sameness side.opposite level.price).modify side
        fun _ _ => Levels.alike_insert sameness level
  | @replace bids bids' asks asks' bids_alike asks_alike =>
    have kept := Levels.alike_ofList sameness bids_alike
    refine ⟨h.symbol_eq, ?_⟩
    rintro (_ | _)
    · exact kept
    · refine Levels.alike_ofList sameness (List.rel_filter (fun l l' alike => ?_) asks_alike)
      simp only [Levels.hasPrice_congr_alike sameness alike.price kept]

theorem KeptAlike.writeAll (h : b.KeptAlike R b')
    (same : List.Forall₂ (Write.Alike R) writes writes') :
    (b.writeAll writes).KeptAlike R (b'.writeAll writes') := by
  induction same generalizing b b' with
  | nil => exact h
  | cons alike _ ih => exact ih (h.write sameness alike)

end Book

end Sameness

/-! ### What is at each price tells the sorted levels -/

/-- An order of levels by their prices: it tells two levels apart that are at different prices, and
no others. -/
structure Levels.IsPriority (before : Level → Level → Bool) : Prop where
  trans : ∀ l m n, before l m → before m n → before l n
  total : ∀ l m, before l m || before m l
  sameValue_iff : ∀ {l m}, l.price.SameValue m.price ↔ before l m ∧ before m l

namespace Levels

theorem isPriority_descending : IsPriority fun l m => m.price ≤ l.price where
  trans := by simp only [Decimal.le_iff_units, decide_eq_true_eq]; omega
  total := by simp only [Decimal.le_iff_units, decide_eq_true_eq, Bool.or_eq_true]; omega
  sameValue_iff := by
    simp only [Decimal.le_iff_units, decide_eq_true_eq, Decimal.SameValue]
    omega

theorem isPriority_ascending : IsPriority fun l m => l.price ≤ m.price where
  trans := by simp only [Decimal.le_iff_units, decide_eq_true_eq]; omega
  total := by simp only [Decimal.le_iff_units, decide_eq_true_eq, Bool.or_eq_true]; omega
  sameValue_iff := by
    simp only [Decimal.le_iff_units, decide_eq_true_eq, Decimal.SameValue]
    omega

variable {before : Level → Level → Bool}

/-- Sorting keeps what is at a price as it is. -/
theorem IsPriority.atPrice_mergeSort (h : IsPriority before) (levels : List Level)
    (price : Decimal) : atPrice price (levels.mergeSort before) = atPrice price levels := by
  have even : (atPrice price levels).Pairwise fun l m => before l m := by
    refine List.pairwise_of_forall_mem_list fun l l_mem m m_mem => ?_
    have here := (mem_atPrice.mp l_mem).2
    have there := (mem_atPrice.mp m_mem).2
    exact (h.sameValue_iff.mp (here.trans there.symm)).1
  have kept : (atPrice price levels).Sublist (levels.mergeSort before) :=
    List.sublist_mergeSort h.trans h.total even (List.filter_sublist ..)
  have kept : (atPrice price levels).Sublist (atPrice price (levels.mergeSort before)) := by
    have := kept.filter fun l => l.price.SameValue price
    simpa [atPrice, List.filter_filter] using this
  exact (kept.eq_of_length ((List.mergeSort_perm levels before).filter _).length_eq.symm).symm

/-- The first of sorted levels comes before every price that some of them are at. -/
theorem IsPriority.before_of_atPrice (h : IsPriority before)
    (sorted : (l :: levels).Pairwise fun l m => before l m)
    (there : atPrice m.price (l :: levels) ≠ []) : before l m := by
  obtain ⟨n, n_mem⟩ := List.exists_mem_of_ne_nil _ there
  obtain ⟨member, here⟩ := mem_atPrice.mp n_mem
  have upTo : before n m := (h.sameValue_iff.mp here).1
  rcases List.mem_cons.mp member with rfl | later
  · exact upTo
  · exact h.trans l n m (List.rel_of_pairwise_cons sorted later) upTo

/-- Sorted levels are known by what is at each price. -/
theorem IsPriority.forall₂_of_atPrice (h : IsPriority before)
    (sorted : levels.Pairwise fun l m => before l m)
    (sorted' : levels'.Pairwise fun l m => before l m)
    (alike : ∀ price, List.Forall₂ (Level.Alike R) (atPrice price levels) (atPrice price levels')) :
    List.Forall₂ (Level.Alike R) levels levels' := by
  induction levels generalizing levels' with
  | nil =>
    cases levels' with
    | nil => exact .nil
    | cons m rest' => simpa using alike m.price
  | cons l rest ih =>
    cases levels' with
    | nil => simpa using alike l.price
    | cons m rest' =>
      have present : atPrice m.price (l :: rest) ≠ [] := by
        intro absent
        simpa [absent] using alike m.price
      have present' : atPrice l.price (m :: rest') ≠ [] := by
        intro absent
        simpa [absent] using alike l.price
      have same : m.price.SameValue l.price :=
        h.sameValue_iff.mpr
          ⟨h.before_of_atPrice sorted' present', h.before_of_atPrice sorted present⟩
      have skip : ∀ price, atPrice price (m :: rest') =
          if l.price.SameValue price then m :: atPrice price rest' else atPrice price rest' := by
        have through : ∀ price, m.price.SameValue price ↔ l.price.SameValue price :=
          fun price => ⟨fun here => same.symm.trans here, fun here => same.trans here⟩
        simp only [atPrice_cons, through, implies_true]
      -- the heads are at one price, and come first there
      have heads : l.Alike R m := by
        have here := alike l.price
        rw [atPrice_cons_self, skip, if_pos l.price.sameValue_self] at here
        exact (List.forall₂_cons.mp here).1
      refine .cons heads (ih sorted.of_cons sorted'.of_cons fun price => ?_)
      have here := alike price
      rw [skip, atPrice_cons] at here
      split_ifs at here
      · exact (List.forall₂_cons.mp here).2
      · exact here

/-- Levels are sorted alike when they are alike at each price. -/
theorem IsPriority.forall₂_mergeSort (h : IsPriority before)
    (alike : ∀ price, List.Forall₂ (Level.Alike R) (atPrice price levels) (atPrice price levels')) :
    List.Forall₂ (Level.Alike R) (levels.mergeSort before) (levels'.mergeSort before) := by
  refine h.forall₂_of_atPrice (List.pairwise_mergeSort h.trans h.total levels)
    (List.pairwise_mergeSort h.trans h.total levels') fun price => ?_
  rw [h.atPrice_mergeSort, h.atPrice_mergeSort]
  exact alike price

end Levels

namespace Book

/-- Books list the same when they are kept alike at each price. -/
theorem alike_of_atPrice (h : ∀ price, (b.atPrice price).KeptAlike R (b'.atPrice price)) :
    b.Alike R b' :=
  ⟨(h .zero).symbol_eq,
    Levels.isPriority_descending.forall₂_mergeSort fun price => (h price).levels .bid,
    Levels.isPriority_ascending.forall₂_mergeSort fun price => (h price).levels .ask⟩

/-- Writes with alike parts in the same order at each price leave books that list the same. -/
theorem alike_writeAll (sameness : Decimal.IsSameness R) (b : Book)
    (h : ∀ price, List.Forall₂ (Write.Alike R) (writes.filterMap (Write.atPrice? price))
      (writes'.filterMap (Write.atPrice? price))) :
    (b.writeAll writes).Alike R (b.writeAll writes') := by
  refine alike_of_atPrice fun price => ?_
  rw [atPrice_writeAll, atPrice_writeAll]
  exact (KeptAlike.refl sameness _).writeAll sameness (h price)

end Book

/-! ### Snapshots -/

/-- At most one of levels at prices that occur once is at a price. -/
theorem Levels.Distinct.length_atPrice_le (h : Distinct levels) (price : Decimal) :
    (atPrice price levels).length ≤ 1 := by
  have apart : Distinct (atPrice price levels) := List.Pairwise.filter _ h
  match at_price : atPrice price levels with
  | [] => exact Nat.zero_le 1
  | [_] => exact Nat.le_refl 1
  | l :: m :: rest =>
    rw [at_price] at apart
    have here : ∀ n ∈ [l, m], n.price.SameValue price := by
      intro n member
      have : n ∈ atPrice price levels := by
        rw [at_price]
        exact List.mem_append_left rest member
      exact (mem_atPrice.mp this).2
    have same := (here l (by simp)).trans (here m (by simp)).symm
    exact absurd same (List.rel_of_pairwise_cons apart List.mem_cons_self)

/-- Levels of both sides, each as a write. -/
def upserts (bids asks : List Level) : List Write :=
  bids.map (.upsert .bid) ++ asks.map (.upsert .ask)

theorem filterMap_atPrice?_upserts (bids asks : List Level) (price : Decimal) :
    (upserts bids asks).filterMap (Write.atPrice? price) =
      upserts (Levels.atPrice price bids) (Levels.atPrice price asks) := by
  have side_eq : ∀ (side : Side) (levels : List Level),
      (levels.map (.upsert side)).filterMap (Write.atPrice? price) =
        (Levels.atPrice price levels).map (.upsert side) := by
    intro side levels
    induction levels with
    | nil => rfl
    | cons l rest ih =>
      rw [List.map_cons, List.filterMap_cons, Write.atPrice?, Levels.atPrice_cons, ih]
      split_ifs <;> rfl
  rw [upserts, List.filterMap_append, side_eq, side_eq, upserts]

namespace Book

/-- Replacing all levels by one or none is writing it to an empty book. -/
theorem replace_eq_writeAll {bids asks : List Level} (few : (bids ++ asks).length ≤ 1) :
    b.replace bids asks = (empty b.symbol).writeAll (upserts bids asks) := by
  match bids, asks with
  | [], [] => rfl
  | [l], [] =>
    by_cases void : l.isVoid <;>
      simp [upserts, writeAll, write, upsert, replace, remove, modify, empty, void, Levels.ofList,
        Levels.insert, Levels.erase, Side.opposite]
  | [], [l] =>
    by_cases void : l.isVoid <;>
      simp [upserts, writeAll, write, upsert, replace, remove, modify, empty, void, Levels.ofList,
        Levels.insert, Levels.erase, Levels.hasPrice, Side.opposite]
  | l :: m :: bids, asks => simp at few
  | [l], m :: asks => simp at few
  | [], l :: m :: asks => simp at few

/-- A book that is replaced by levels at prices that occur once lists what an empty one lists after
these levels are written to it, in any order. -/
theorem alike_replace {bids asks : List Level} (distinct : Levels.Distinct (bids ++ asks))
    (perm : writes.Perm (upserts bids asks)) :
    (b.replace bids asks).Alike Eq ((empty b.symbol).writeAll writes) := by
  refine alike_of_atPrice fun price => ?_
  have few : (Levels.atPrice price bids ++ Levels.atPrice price asks).length ≤ 1 := by
    rw [← Levels.atPrice_append]
    exact distinct.length_atPrice_le price
  -- the writes of one price have only one order
  have parts : writes.filterMap (Write.atPrice? price) =
      upserts (Levels.atPrice price bids) (Levels.atPrice price asks) := by
    have perm := perm.filterMap (Write.atPrice? price)
    rw [filterMap_atPrice?_upserts] at perm
    match at_price : upserts (Levels.atPrice price bids) (Levels.atPrice price asks) with
    | [] => exact (at_price ▸ perm).eq_nil
    | [w] => exact (at_price ▸ perm).eq_singleton
    | w :: w' :: rest =>
      have := congrArg List.length at_price
      simp [upserts] at this few
      omega
  rw [atPrice_replace, atPrice_writeAll, parts, replace_eq_writeAll few]
  exact KeptAlike.refl Decimal.isSameness_eq _

/-- Books do not depend on the order in which writes at different prices come. Writes whose parts at
each price are alike and in the same order leave books that list the same, whatever the book was:
alike may mean identical, or of the same value. A snapshot in which no price occurs twice leaves the
book of its levels written one by one, in any order, to an empty book, and no other book is
changed. -/
theorem listed_by_price :
    (∀ R, Decimal.IsSameness R → ∀ (b : Book) (writes writes' : List Write),
      (∀ price, List.Forall₂ (Write.Alike R) (writes.filterMap (Write.atPrice? price))
        (writes'.filterMap (Write.atPrice? price))) →
      (b.writeAll writes).Alike R (b.writeAll writes')) ∧
    ∀ (s : Shelf) (u : Update) (writes : List Write), u.kind = .snapshot →
      Levels.Distinct (u.bids ++ u.asks) → writes.Perm (upserts u.bids u.asks) →
      ∃ b, s.apply u = .ok (s.insert u.symbol b) ∧
        b.symbol = ((s.get? u.symbol).map Book.symbol).getD u.symbol ∧
        b.Alike Eq ((empty b.symbol).writeAll writes) := by
  refine ⟨fun R sameness b writes writes' => alike_writeAll sameness b, ?_⟩
  intro s u writes snapshot distinct perm
  have applied : ∀ b : Book, b.apply u = b.replace u.bids u.asks := by
    intro b
    rw [apply, snapshot]
  unfold Shelf.apply
  cases s.get? u.symbol with
  | none =>
    rw [snapshot]
    refine ⟨(empty u.symbol).apply u, rfl, ?_⟩
    rw [applied]
    exact ⟨rfl, alike_replace distinct perm⟩
  | some b =>
    refine ⟨b.apply u, rfl, ?_⟩
    rw [applied]
    exact ⟨rfl, alike_replace distinct perm⟩

/-- A bid at nine, an ask at ten and a void ask at nine. -/
def nineFirst : List Write :=
  [.upsert .bid ⟨.ofWord 9 0, .one⟩, .upsert .ask ⟨.ofWord 10 0, .one⟩,
    .upsert .ask ⟨.ofWord 9 0, .zero⟩]

/-- The same with the ask at ten first, and a place more in the price of the bid. -/
def tenFirst : List Write :=
  [.upsert .ask ⟨.ofWord 10 0, .one⟩, .upsert .bid ⟨.ofWord 90 1, .one⟩,
    .upsert .ask ⟨.ofWord 9 0, .zero⟩]

/-- A snapshot with a bid at nine and an ask at ten. -/
def nineTen : Update :=
  ⟨.snapshot, "BTCUSDC", [⟨.ofWord 9 0, .one⟩], [⟨.ofWord 10 0, .one⟩]⟩

/-- In either order, the void ask leaves the bid as it is. A snapshot of the two levels takes the
place of whatever book there was. -/
theorem listed_by_price_of_two_prices :
    let old : Book := ⟨"BTCUSDC", [⟨.ofWord 10 0, .one⟩], []⟩
    let shelf : Shelf := Table.empty.insert "BTCUSDC" old
    (old.writeAll nineFirst).Alike Decimal.SameValue (old.writeAll tenFirst) ∧
      ∃ b, shelf.apply nineTen = .ok (shelf.insert "BTCUSDC" b) ∧ b.symbol = "BTCUSDC" ∧
        b.Alike Eq ((empty b.symbol).writeAll
          [.upsert .ask ⟨.ofWord 10 0, .one⟩, .upsert .bid ⟨.ofWord 9 0, .one⟩]) := by
  intro old shelf
  obtain ⟨reordered, snapshot⟩ := listed_by_price
  refine ⟨reordered _ Decimal.isSameness_sameValue old nineFirst tenFirst fun price => ?_, ?_⟩
  · have ninety : (Decimal.ofWord 90 1).SameValue price ↔ (Decimal.ofWord 9 0).SameValue price :=
      Iff.rfl
    simp only [nineFirst, tenFirst, List.filterMap_cons, List.filterMap_nil, Write.atPrice?, ninety]
    by_cases nine : (Decimal.ofWord 9 0).SameValue price
    · have not_ten : ¬ (Decimal.ofWord 10 0).SameValue price := fun ten =>
        absurd (Eq.trans nine (Eq.symm ten)) (by decide)
      simp only [if_pos nine, if_neg not_ten]
      exact .cons (.upsert .bid ⟨rfl, rfl⟩) (.cons (.upsert .ask ⟨rfl, rfl⟩) .nil)
    · simp only [if_neg nine]
      split_ifs
      · exact .cons (.upsert .ask ⟨rfl, rfl⟩) .nil
      · exact .nil
  · have distinct : Levels.Distinct (nineTen.bids ++ nineTen.asks) :=
      List.pairwise_pair.mpr (by decide)
    exact snapshot shelf nineTen _ rfl distinct (List.Perm.swap ..)

end Book

end Venue

end CrossBook
