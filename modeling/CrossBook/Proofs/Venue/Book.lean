import CrossBook.Venue.Book
import Mathlib.Data.List.Basic
import Mathlib.Data.List.Induction
import Mathlib.Data.List.Pairwise
import Mathlib.Tactic.SplitIfs

/-!
# What a book keeps

A book is written level by level or as a whole. Whatever was written, in whatever order and however
often, a price stands on one side at a time and once there, and nothing void is kept. The sorted
copies of a side are then strictly sorted, and the best level, which is found without sorting, is
the first of them.

Writing is described price by price: what a write leaves at a price depends on the write and on what
was there.

## Main definitions

* `Venue.Levels.sizeAt?`, `Venue.Book.sizeAt?` — what is offered at a price
* `Venue.Levels.Distinct` — no price occurs twice
* `Venue.Write` — a change of a book, with `Write.sizeAfter`, what it leaves at a price
* `Venue.Book.Sound` — every price once, on one side, and with something offered
* `Venue.Book.Listed` — the sorted copies and the best levels tell what is kept

## Main results

* `Venue.Book.sizeAt?_write`, `Venue.Book.sizeAt?_writeAll` — a price offers what was last left
  there
* `Venue.Book.Sound.write`, `Venue.Book.Sound.writeAll` — writes keep a book sound
* `Venue.Book.Sound.listed` — a sound book is listed by its views
* `Venue.Book.Sound.views_eq_of_perm` — the order in which levels are kept shows nowhere
* `Venue.Book.listed_of_writes` — what holds after any writes
-/

namespace CrossBook.Venue

variable {l m : Level} {levels kept sorted : List Level} {price : Decimal}

namespace Levels

/-- What is offered at a price. -/
def sizeAt? (price : Decimal) (levels : List Level) : Option Decimal :=
  (levels.find? fun l => l.price.SameValue price).map Level.size

/-- What is offered at a price by the last of the levels there that is not void. -/
def lastAt? (price : Decimal) (levels : List Level) : Option Decimal :=
  ((levels.filter fun l => ¬ l.isVoid ∧ l.price.SameValue price).getLast?).map Level.size

/-- No two of the levels are at one price. -/
def Distinct (levels : List Level) : Prop :=
  levels.Pairwise fun a b => ¬ a.price.SameValue b.price

/-! ### Sizes by price -/

@[simp] theorem sizeAt?_nil : sizeAt? price [] = none := rfl

theorem sizeAt?_cons : sizeAt? price (l :: levels) =
    if l.price.SameValue price then some l.size else sizeAt? price levels := by
  unfold sizeAt?
  split_ifs with here <;> simp [here]

theorem sizeAt?_eq_none_iff :
    sizeAt? price levels = none ↔ ∀ l ∈ levels, ¬ l.price.SameValue price := by
  simp [sizeAt?]

theorem exists_of_sizeAt? {size : Decimal} (h : sizeAt? price levels = some size) :
    ∃ l ∈ levels, l.price.SameValue price ∧ l.size = size := by
  obtain ⟨l, found, rfl⟩ := Option.map_eq_some_iff.mp h
  exact ⟨l, List.mem_of_find?_eq_some found, by simpa using List.find?_some found, rfl⟩

theorem sizeAt?_insert : sizeAt? price (insert l levels) =
    if l.price.SameValue price then some l.size else sizeAt? price levels := by
  induction levels with
  | nil => simp [insert, sizeAt?_cons]
  | cons h rest ih =>
    unfold insert
    by_cases same : h.price.SameValue l.price
    · have through : h.price.SameValue price ↔ l.price.SameValue price := by
        unfold Decimal.SameValue at *
        rw [same]
      rw [if_pos same, sizeAt?_cons, sizeAt?_cons]
      split_ifs <;> simp_all
    · rw [if_neg same, sizeAt?_cons, sizeAt?_cons, ih]
      split_ifs with first second
      · exact absurd (first.trans second.symm) same
      · rfl
      · rfl
      · rfl

theorem sizeAt?_filter {p : Level → Bool} (h : ∀ l ∈ levels, l.price.SameValue price → p l) :
    sizeAt? price (levels.filter p) = sizeAt? price levels := by
  induction levels with
  | nil => rfl
  | cons l rest ih =>
    have rest_same := ih fun m member => h m (List.mem_cons_of_mem l member)
    by_cases kept : p l
    · rw [List.filter_cons_of_pos kept, sizeAt?_cons, sizeAt?_cons, rest_same]
    · rw [List.filter_cons_of_neg kept, sizeAt?_cons, rest_same, if_neg]
      exact fun same => kept (h l List.mem_cons_self same)

theorem sizeAt?_erase {other : Decimal} : sizeAt? price (erase other levels) =
    if other.SameValue price then none else sizeAt? price levels := by
  split_ifs with same
  · rw [sizeAt?_eq_none_iff]
    intro l member here
    obtain ⟨-, away⟩ := List.mem_filter.mp member
    exact of_decide_eq_true away (here.trans same.symm)
  · refine sizeAt?_filter fun l _ here => ?_
    exact decide_eq_true fun there => same (there.symm.trans here)

theorem hasPrice_eq_isSome : hasPrice price levels = (sizeAt? price levels).isSome := by
  unfold hasPrice sizeAt?
  rw [Option.isSome_map, Bool.eq_iff_iff, List.find?_isSome, List.any_eq_true]

theorem sizeAt?_ofList : sizeAt? price (ofList levels) = lastAt? price levels := by
  unfold ofList lastAt?
  induction levels using List.reverseRecOn with
  | nil => rfl
  | append_singleton levels l ih =>
    rw [List.foldl_append, List.filter_append]
    by_cases void : l.isVoid
    · simpa [void] using ih
    · by_cases here : l.price.SameValue price
      · simp [void, here, sizeAt?_insert]
      · simpa [void, here, sizeAt?_insert] using ih

theorem hasPrice_congr {other : Decimal} (same : price.SameValue other) :
    hasPrice price levels = hasPrice other levels := by
  have through : ∀ l : Level, l.price.SameValue price ↔ l.price.SameValue other :=
    fun l => ⟨fun here => here.trans same, fun there => there.trans same.symm⟩
  simp only [hasPrice, through]

theorem units_of_lastAt? {size : Decimal} (h : lastAt? price levels = some size) :
    size.units ≠ 0 := by
  obtain ⟨l, last, rfl⟩ := Option.map_eq_some_iff.mp h
  obtain ⟨-, kept⟩ := List.mem_filter.mp (List.mem_of_getLast? last)
  exact (of_decide_eq_true kept).1

/-- Leaving levels out by their prices leaves all levels at a price out, or none. -/
theorem lastAt?_filter {p : Level → Bool} {at_price : Bool}
    (h : ∀ l, l.price.SameValue price → p l = at_price) :
    lastAt? price (levels.filter p) = if at_price then lastAt? price levels else none := by
  unfold lastAt?
  rw [List.filter_filter]
  have same : ∀ l ∈ levels, (decide (¬ l.isVoid ∧ l.price.SameValue price) && p l) =
      (decide (¬ l.isVoid ∧ l.price.SameValue price) && at_price) := by
    intro l _
    by_cases here : l.price.SameValue price
    · rw [h l here]
    · simp [here]
  rw [List.filter_congr same]
  cases at_price <;> simp

/-! ### Prices that occur once -/

theorem distinct_nil : Distinct [] := List.Pairwise.nil

theorem distinct_cons :
    Distinct (l :: levels) ↔ sizeAt? l.price levels = none ∧ Distinct levels := by
  unfold Distinct
  rw [List.pairwise_cons, sizeAt?_eq_none_iff]
  exact and_congr_left fun _ => forall₂_congr fun m _ => not_congr eq_comm

theorem Distinct.perm (h : Distinct levels) (perm : kept.Perm levels) : Distinct kept :=
  (perm.pairwise_iff fun apart same => apart same.symm).mpr h

theorem Distinct.erase (h : Distinct levels) : Distinct (erase price levels) :=
  List.Pairwise.filter _ h

theorem Distinct.insert (h : Distinct levels) : Distinct (insert l levels) := by
  induction levels with
  | nil => exact List.pairwise_singleton _ l
  | cons first rest ih =>
    obtain ⟨away, rest_distinct⟩ := distinct_cons.mp h
    unfold Levels.insert
    split_ifs with same
    · exact distinct_cons.mpr ⟨away, rest_distinct⟩
    · refine distinct_cons.mpr ⟨?_, ih rest_distinct⟩
      rw [sizeAt?_insert, if_neg fun there => same there.symm]
      exact away

theorem distinct_ofList (levels : List Level) : Distinct (ofList levels) := by
  unfold ofList
  refine List.foldlRecOn levels _ distinct_nil fun kept h l _ => ?_
  split_ifs
  · exact h
  · exact h.insert

theorem Distinct.sizeAt?_eq (h : Distinct levels) (member : l ∈ levels) :
    sizeAt? l.price levels = some l.size := by
  induction levels with
  | nil => cases member
  | cons first rest ih =>
    obtain ⟨away, rest_distinct⟩ := distinct_cons.mp h
    rw [sizeAt?_cons]
    rcases List.mem_cons.mp member with rfl | later
    · exact if_pos rfl
    · rw [if_neg, ih rest_distinct later]
      exact fun same => sizeAt?_eq_none_iff.mp away l later same.symm

/-! ### Sorted copies and the best of them -/

theorem descending_perm (levels : List Level) : (descending levels).Perm levels :=
  List.mergeSort_perm levels _

theorem ascending_perm (levels : List Level) : (ascending levels).Perm levels :=
  List.mergeSort_perm levels _

theorem Distinct.descending_strict (h : Distinct levels) :
    (descending levels).Pairwise fun a b => b.price < a.price := by
  have weakly : (descending levels).Pairwise fun a b => b.price ≤ a.price := by
    refine (List.pairwise_mergeSort ?_ ?_ levels).imp of_decide_eq_true <;>
      simp only [Decimal.le_iff_units, decide_eq_true_eq, Bool.or_eq_true] <;> omega
  refine (weakly.and (h.perm (descending_perm levels))).imp fun ⟨ordered, apart⟩ => ?_
  exact Int.lt_iff_le_and_ne.mpr ⟨ordered, fun same => apart same.symm⟩

theorem Distinct.ascending_strict (h : Distinct levels) :
    (ascending levels).Pairwise fun a b => a.price < b.price := by
  have weakly : (ascending levels).Pairwise fun a b => a.price ≤ b.price := by
    refine (List.pairwise_mergeSort ?_ ?_ levels).imp of_decide_eq_true <;>
      simp only [Decimal.le_iff_units, decide_eq_true_eq, Bool.or_eq_true] <;> omega
  exact (weakly.and (h.perm (ascending_perm levels))).imp Int.lt_iff_le_and_ne.mpr

/-- The chosen level is one of the levels, none of them comes before it, and there is one if there
are any. -/
def IsFirst (before : Level → Level → Prop) (levels : List Level) : Option Level → Prop
  | none => levels = []
  | some l => l ∈ levels ∧ ∀ m ∈ levels, ¬ before m l

theorem isFirst_highest? (levels : List Level) :
    IsFirst (fun a b => b.price < a.price) levels (highest? levels) := by
  induction levels with
  | nil => rfl
  | cons l rest ih =>
    unfold highest?
    cases found : highest? rest with
    | none =>
      obtain rfl : rest = [] := by simpa [IsFirst, found] using ih
      simp [IsFirst, Decimal.lt_iff_units]
    | some best =>
      obtain ⟨member, first⟩ : best ∈ rest ∧ ∀ m ∈ rest, ¬ best.price < m.price := by
        simpa [IsFirst, found] using ih
      simp only [Decimal.lt_iff_units] at first ⊢
      split_ifs with higher
      · refine ⟨List.mem_cons_self, List.forall_mem_cons.mpr ⟨by omega, fun m mem => ?_⟩⟩
        have := first m mem
        omega
      · exact ⟨List.mem_cons_of_mem l member, List.forall_mem_cons.mpr ⟨higher, first⟩⟩

theorem isFirst_lowest? (levels : List Level) :
    IsFirst (fun a b => a.price < b.price) levels (lowest? levels) := by
  induction levels with
  | nil => rfl
  | cons l rest ih =>
    unfold lowest?
    cases found : lowest? rest with
    | none =>
      obtain rfl : rest = [] := by simpa [IsFirst, found] using ih
      simp [IsFirst, Decimal.lt_iff_units]
    | some best =>
      obtain ⟨member, first⟩ : best ∈ rest ∧ ∀ m ∈ rest, ¬ m.price < best.price := by
        simpa [IsFirst, found] using ih
      simp only [Decimal.lt_iff_units] at first ⊢
      split_ifs with lower
      · exact ⟨List.mem_cons_of_mem l member, List.forall_mem_cons.mpr ⟨by omega, first⟩⟩
      · refine ⟨List.mem_cons_self, List.forall_mem_cons.mpr ⟨by omega, fun m mem => ?_⟩⟩
        have := first m mem
        omega

theorem IsFirst.eq_none_iff {before : Level → Level → Prop} {best : Option Level}
    (h : IsFirst before levels best) : best = none ↔ levels = [] := by
  cases best with
  | none => exact iff_of_true rfl h
  | some l => exact iff_of_false (Option.some_ne_none l) (List.ne_nil_of_mem h.1)

/-- What comes first is the head of a strictly sorted copy. -/
theorem IsFirst.eq_head? {before : Level → Level → Prop} {best : Option Level}
    (h : IsFirst before levels best) (perm : sorted.Perm levels) (strict : sorted.Pairwise before) :
    best = sorted.head? := by
  cases sorted with
  | nil =>
    obtain rfl := perm.nil_eq
    cases best with
    | none => rfl
    | some l => exact absurd h.1 List.not_mem_nil
  | cons head rest =>
    cases best with
    | none =>
      obtain rfl : levels = [] := h
      exact absurd perm.eq_nil (List.cons_ne_nil head rest)
    | some l =>
      obtain ⟨member, first⟩ := h
      -- any other level of the copy has the head before it
      rcases List.mem_cons.mp (perm.mem_iff.mpr member) with rfl | later
      · rfl
      · exact absurd (List.rel_of_pairwise_cons strict later)
          (first head (perm.mem_iff.mp List.mem_cons_self))

end Levels

/-- A change of a book. -/
inductive Write where
  | upsert (side : Side) (level : Level)
  | remove (side : Side) (price : Decimal)
  | replace (bids asks : List Level)

/-- What a write leaves at a price of a side where there was something or nothing before. -/
def Write.sizeAfter (side : Side) (price : Decimal) (before : Option Decimal) :
    Write → Option Decimal
  | upsert target l =>
    if ¬ l.price.SameValue price then before
    else if target = side then if l.isVoid then none else some l.size
    else if l.isVoid then before else none
  | remove target other => if target = side ∧ other.SameValue price then none else before
  | replace bids asks =>
    match side with
    | .bid => Levels.lastAt? price bids
    | .ask => if (Levels.lastAt? price bids).isSome then none else Levels.lastAt? price asks

namespace Book

/-- The book after a write. -/
def write (b : Book) : Write → Book
  | .upsert side l => b.upsert side l
  | .remove side price => b.remove side price
  | .replace bids asks => b.replace bids asks

/-- The book after writes. -/
def writeAll (b : Book) (writes : List Write) : Book := writes.foldl write b

/-- What is offered at a price of a side. -/
def sizeAt? (b : Book) (side : Side) (price : Decimal) : Option Decimal :=
  Levels.sizeAt? price (b.levels side)

/-- Every price occurs once, on one side, and with something offered. -/
structure Sound (b : Book) : Prop where
  distinct : ∀ side, Levels.Distinct (b.levels side)
  apart : ∀ bid ∈ b.bids, ∀ ask ∈ b.asks, ¬ bid.price.SameValue ask.price
  solid : ∀ side, ∀ l ∈ b.levels side, ¬ l.isVoid

/-- The sorted copies hold each level once and strictly sorted, and the best levels are their
first. -/
structure Listed (b : Book) : Prop where
  bids_perm : b.bidsDescending.Perm b.bids
  bids_strict : b.bidsDescending.Pairwise fun l m => m.price < l.price
  asks_perm : b.asksAscending.Perm b.asks
  asks_strict : b.asksAscending.Pairwise fun l m => l.price < m.price
  bestBid_eq : b.bestBid = b.bidsDescending.head?
  bestAsk_eq : b.bestAsk = b.asksAscending.head?
  bestBid_none : b.bestBid = none ↔ b.bids = []
  bestAsk_none : b.bestAsk = none ↔ b.asks = []

variable {b c : Book} {side : Side}

/-! ### Writing, price by price -/

theorem levels_modify (b : Book) (target side : Side) (f : List Level → List Level) :
    (b.modify target f).levels side =
      if target = side then f (b.levels side) else b.levels side := by
  cases target <;> cases side <;> rfl

theorem sizeAt?_remove (b : Book) (target side : Side) (other price : Decimal) :
    (b.remove target other).sizeAt? side price =
      if target = side ∧ other.SameValue price then none else b.sizeAt? side price := by
  unfold remove sizeAt?
  rw [levels_modify]
  by_cases here : target = side
  · simp [here, Levels.sizeAt?_erase]
  · simp [here]

theorem sizeAt?_upsert (b : Book) (target side : Side) (l : Level) (price : Decimal) :
    (b.upsert target l).sizeAt? side price =
      (Write.upsert target l).sizeAfter side price (b.sizeAt? side price) := by
  unfold upsert Write.sizeAfter
  by_cases void : l.isVoid
  · rw [if_pos void, sizeAt?_remove]
    by_cases here : l.price.SameValue price <;> simp [here, void]
  · rw [if_neg void, sizeAt?, levels_modify]
    by_cases onSide : target = side
    · obtain rfl := onSide
      rw [if_pos rfl, Levels.sizeAt?_insert, ← sizeAt?, sizeAt?_remove]
      have opposite_ne : target.opposite ≠ target := by cases target <;> decide
      by_cases here : l.price.SameValue price <;> simp [here, void, opposite_ne]
    · rw [if_neg onSide, ← sizeAt?, sizeAt?_remove]
      have opposite_eq : target.opposite = side := by
        cases target <;> cases side <;> simp_all [Side.opposite]
      by_cases here : l.price.SameValue price <;> simp [here, void, onSide, opposite_eq]

theorem sizeAt?_replace_ask (b : Book) (bids asks : List Level) (price : Decimal) :
    (b.replace bids asks).sizeAt? .ask price =
      if (Levels.lastAt? price bids).isSome then none else Levels.lastAt? price asks := by
  have left_out : ∀ l : Level, l.price.SameValue price →
      (!Levels.hasPrice l.price (Levels.ofList bids)) =
        !(Levels.lastAt? price bids).isSome := by
    intro l here
    rw [Levels.hasPrice_congr here, Levels.hasPrice_eq_isSome, Levels.sizeAt?_ofList]
  calc (b.replace bids asks).sizeAt? .ask price
      = Levels.lastAt? price (asks.filter fun l =>
          !Levels.hasPrice l.price (Levels.ofList bids)) := Levels.sizeAt?_ofList
    _ = if !(Levels.lastAt? price bids).isSome then Levels.lastAt? price asks else none :=
        Levels.lastAt?_filter left_out
    _ = _ := by cases (Levels.lastAt? price bids).isSome <;> rfl

theorem sizeAt?_write (b : Book) (w : Write) (side : Side) (price : Decimal) :
    (b.write w).sizeAt? side price = w.sizeAfter side price (b.sizeAt? side price) := by
  cases w with
  | remove target other => exact sizeAt?_remove b target side other price
  | upsert target l => exact sizeAt?_upsert b target side l price
  | replace bids asks =>
    cases side with
    | bid => exact Levels.sizeAt?_ofList
    | ask => exact sizeAt?_replace_ask b bids asks price

/-- After any writes a price offers what the last write that concerned it left there. -/
theorem sizeAt?_writeAll (b : Book) (writes : List Write) (side : Side) (price : Decimal) :
    (b.writeAll writes).sizeAt? side price =
      writes.foldl (fun before w => w.sizeAfter side price before) (b.sizeAt? side price) := by
  induction writes generalizing b with
  | nil => rfl
  | cons w rest ih =>
    rw [writeAll, List.foldl_cons, List.foldl_cons, ← sizeAt?_write]
    exact ih (b.write w)

/-! ### Soundness -/

theorem distinct_write (h : ∀ side, Levels.Distinct (b.levels side)) (w : Write) (side : Side) :
    Levels.Distinct ((b.write w).levels side) := by
  have removed : ∀ target price side, Levels.Distinct ((b.remove target price).levels side) := by
    intro target price side
    rw [remove, levels_modify]
    split_ifs
    · exact (h side).erase
    · exact h side
  cases w with
  | remove target price => exact removed target price side
  | upsert target l =>
    rw [write, upsert]
    split_ifs
    · exact removed target l.price side
    · rw [levels_modify]
      split_ifs
      · exact (removed _ _ side).insert
      · exact removed _ _ side
  | replace bids asks => cases side <;> exact Levels.distinct_ofList _

/-- Soundness, told by what is offered at each price. -/
theorem sound_iff : b.Sound ↔ (∀ side, Levels.Distinct (b.levels side)) ∧
    (∀ price, b.sizeAt? .bid price = none ∨ b.sizeAt? .ask price = none) ∧
    ∀ side price size, b.sizeAt? side price = some size → size.units ≠ 0 := by
  constructor
  · rintro ⟨distinct, apart, solid⟩
    refine ⟨distinct, fun price => ?_, fun side price size offered => ?_⟩
    · by_contra! both
      obtain ⟨⟨_, bid_offered⟩, ⟨_, ask_offered⟩⟩ :=
        And.intro (Option.ne_none_iff_exists'.mp both.1) (Option.ne_none_iff_exists'.mp both.2)
      obtain ⟨bid, bid_mem, bid_here, -⟩ := Levels.exists_of_sizeAt? bid_offered
      obtain ⟨ask, ask_mem, ask_here, -⟩ := Levels.exists_of_sizeAt? ask_offered
      exact apart bid bid_mem ask ask_mem (bid_here.trans ask_here.symm)
    · obtain ⟨l, member, -, rfl⟩ := Levels.exists_of_sizeAt? offered
      exact solid side l member
  · rintro ⟨distinct, apart, solid⟩
    refine ⟨distinct, fun bid bid_mem ask ask_mem same => ?_, fun side l member => ?_⟩
    · rcases apart bid.price with absent | absent
      · exact Levels.sizeAt?_eq_none_iff.mp absent bid bid_mem rfl
      · exact Levels.sizeAt?_eq_none_iff.mp absent ask ask_mem same.symm
    · exact solid side l.price l.size ((distinct side).sizeAt?_eq member)

/-- A write leaves a price on one side at most. -/
theorem sizeAfter_apart (w : Write) {bid ask : Option Decimal} (h : bid = none ∨ ask = none) :
    w.sizeAfter .bid price bid = none ∨ w.sizeAfter .ask price ask = none := by
  cases w with
  | remove target other => cases target <;> simp only [Write.sizeAfter] <;> split_ifs <;> simp_all
  | upsert target l => cases target <;> simp only [Write.sizeAfter] <;> split_ifs <;> simp_all
  | replace bids asks =>
    simp only [Write.sizeAfter]
    cases Levels.lastAt? price bids <;> simp

/-- A write leaves nothing void. -/
theorem sizeAfter_solid (w : Write) {before : Option Decimal}
    (h : ∀ size, before = some size → size.units ≠ 0) :
    ∀ size, w.sizeAfter side price before = some size → size.units ≠ 0 := by
  intro size left
  cases w with
  | remove target other =>
    simp only [Write.sizeAfter] at left
    split_ifs at left
    exact h size left
  | upsert target l =>
    simp only [Write.sizeAfter] at left
    split_ifs at left with _ _ solid
    · obtain rfl := Option.some.inj left
      exact solid
    all_goals exact h size left
  | replace bids asks =>
    cases side with
    | bid => exact Levels.units_of_lastAt? left
    | ask =>
      simp only [Write.sizeAfter] at left
      split_ifs at left
      exact Levels.units_of_lastAt? left

theorem Sound.write (h : b.Sound) (w : Write) : (b.write w).Sound := by
  obtain ⟨distinct, apart, solid⟩ := sound_iff.mp h
  refine sound_iff.mpr ⟨distinct_write distinct w, fun price => ?_, fun side price => ?_⟩
  · rw [sizeAt?_write, sizeAt?_write]
    exact sizeAfter_apart w (apart price)
  · rw [sizeAt?_write]
    exact sizeAfter_solid w (solid side price)

theorem sound_empty (symbol : String) : (empty symbol).Sound where
  distinct := by rintro (_ | _) <;> exact Levels.distinct_nil
  apart := by simp [empty]
  solid := by rintro (_ | _) <;> simp [empty, levels]

theorem Sound.writeAll (h : b.Sound) (writes : List Write) : (b.writeAll writes).Sound := by
  induction writes generalizing b with
  | nil => exact h
  | cons w rest ih => exact ih (h.write w)

/-! ### Views -/

theorem Sound.listed (h : b.Sound) : b.Listed where
  bids_perm := Levels.descending_perm b.bids
  bids_strict := (h.distinct .bid).descending_strict
  asks_perm := Levels.ascending_perm b.asks
  asks_strict := (h.distinct .ask).ascending_strict
  bestBid_eq := (Levels.isFirst_highest? b.bids).eq_head? (Levels.descending_perm b.bids)
    (h.distinct .bid).descending_strict
  bestAsk_eq := (Levels.isFirst_lowest? b.asks).eq_head? (Levels.ascending_perm b.asks)
    (h.distinct .ask).ascending_strict
  bestBid_none := (Levels.isFirst_highest? b.bids).eq_none_iff
  bestAsk_none := (Levels.isFirst_lowest? b.asks).eq_none_iff

theorem Sound.of_perm (h : b.Sound) (hb : c.bids.Perm b.bids) (ha : c.asks.Perm b.asks) :
    c.Sound := by
  have perm : ∀ side, (c.levels side).Perm (b.levels side) := by
    rintro (_ | _)
    · exact hb
    · exact ha
  refine ⟨fun side => (h.distinct side).perm (perm side), fun bid bid_mem ask ask_mem => ?_,
    fun side l member => h.solid side l ((perm side).mem_iff.mp member)⟩
  exact h.apart bid (hb.mem_iff.mp bid_mem) ask (ha.mem_iff.mp ask_mem)

/-- In whatever order the levels are kept, the views are the same. -/
theorem Sound.views_eq_of_perm (h : b.Sound) (hb : c.bids.Perm b.bids) (ha : c.asks.Perm b.asks) :
    c.bidsDescending = b.bidsDescending ∧ c.asksAscending = b.asksAscending ∧
      c.bestBid = b.bestBid ∧ c.bestAsk = b.bestAsk := by
  have listed := h.listed
  have other := (h.of_perm hb ha).listed
  -- there is one strictly sorted copy
  have bids_eq : c.bidsDescending = b.bidsDescending := by
    refine List.Perm.eq_of_pairwise ?_ other.bids_strict listed.bids_strict
      (other.bids_perm.trans (hb.trans listed.bids_perm.symm))
    intro l m _ _ lower higher
    exact absurd higher (Int.lt_asymm lower)
  have asks_eq : c.asksAscending = b.asksAscending := by
    refine List.Perm.eq_of_pairwise ?_ other.asks_strict listed.asks_strict
      (other.asks_perm.trans (ha.trans listed.asks_perm.symm))
    intro l m _ _ lower higher
    exact absurd higher (Int.lt_asymm lower)
  exact ⟨bids_eq, asks_eq, by rw [other.bestBid_eq, listed.bestBid_eq, bids_eq],
    by rw [other.bestAsk_eq, listed.bestAsk_eq, asks_eq]⟩

/-- After any writes every price stands on one side at most, nothing void is kept, the sorted copies
hold each level once in strict order, and the best levels are their first. -/
theorem listed_of_writes (symbol : String) (writes : List Write) :
    ((empty symbol).writeAll writes).Sound ∧ ((empty symbol).writeAll writes).Listed := by
  have sound := (sound_empty symbol).writeAll writes
  exact ⟨sound, sound.listed⟩

end Book

end CrossBook.Venue
