import CrossBook.Chain.RestingBook
import CrossBook.Proofs.Failure

/-!
# The sides of resting orders

Orders are sorted into sides by their tags. An order whose tag names no side is told as soon as they
are sorted, so every order of a book that was sorted is on the side where it stands.

## Main definitions

* `Chain.RestingBook.Sided` — every order is on the side where it stands

## Main results

* `Chain.RestingBook.ofOrders_eq_error_iff` — orders that cannot be sorted, by the first of them
* `Chain.RestingBook.ofOrders_spec` — orders that were sorted
-/

namespace CrossBook.Chain

namespace Order

variable {o : Order} {side expected : Side}

theorem side_eq_ok_iff : o.side = .ok side ↔ Side.ofTag? o.tag = some side := orError_eq_ok

theorem side_eq_error_iff {e : DomainError} :
    o.side = .error e ↔ Side.ofTag? o.tag = none ∧ e = .unknownDirection o.tag := by
  rw [Order.side]
  cases Side.ofTag? o.tag <;> simp [orError, eq_comm]

/-- An order that is on a side passes the check for it. -/
theorem expectSide_eq_ok (h : o.side = .ok expected) : o.expectSide expected = .ok () := by
  rw [expectSide, h, ok_bind, if_pos rfl]

end Order

namespace RestingBook

variable {orders bids asks : List Order} {b : RestingBook} {pool height : Nat} {e : DomainError}

/-- Every order is on the side where it stands. -/
structure Sided (b : RestingBook) : Prop where
  bids : ∀ o ∈ b.bids, o.side = .ok .bid
  asks : ∀ o ∈ b.asks, o.side = .ok .ask

theorem split_cons_eq_ok_iff {o : Order} {sides : List Order × List Order} :
    split (o :: orders) = .ok sides ↔ ∃ side bids asks, o.side = .ok side ∧
      split orders = .ok (bids, asks) ∧ sides = match side with
        | .bid => (o :: bids, asks)
        | .ask => (bids, o :: asks) := by
  rw [split, bind_eq_ok]
  constructor
  · rintro ⟨side, named, h⟩
    obtain ⟨⟨bids, asks⟩, rest, h⟩ := bind_eq_ok.mp h
    refine ⟨side, bids, asks, named, rest, ?_⟩
    cases side <;> exact (Except.ok.inj h).symm
  · rintro ⟨side, bids, asks, named, rest, rfl⟩
    refine ⟨side, named, bind_eq_ok.mpr ⟨(bids, asks), rest, ?_⟩⟩
    cases side <;> rfl

/-- Orders that are split are all there, each on its side. -/
theorem split_spec (h : split orders = .ok (bids, asks)) :
    (bids ++ asks).Perm orders ∧ (∀ o ∈ bids, o.side = .ok .bid) ∧
      ∀ o ∈ asks, o.side = .ok .ask := by
  induction orders generalizing bids asks with
  | nil =>
    obtain ⟨rfl, rfl⟩ := Prod.mk.inj (Except.ok.inj h)
    exact ⟨.refl _, by simp, by simp⟩
  | cons o orders ih =>
    obtain ⟨side, bids', asks', named, rest, sides⟩ := split_cons_eq_ok_iff.mp h
    obtain ⟨perm, onBids, onAsks⟩ := ih rest
    cases side with
    | bid =>
      obtain ⟨rfl, rfl⟩ := Prod.mk.inj sides
      exact ⟨perm.cons o, List.forall_mem_cons.mpr ⟨named, onBids⟩, onAsks⟩
    | ask =>
      obtain ⟨rfl, rfl⟩ := Prod.mk.inj sides
      exact ⟨List.perm_middle.trans (perm.cons o), onBids, List.forall_mem_cons.mpr ⟨named, onAsks⟩⟩

/-- Orders cannot be split when the tag of one names no side; the error is that of the first. -/
theorem split_eq_error_iff : split orders = .error e ↔
    ∃ before o after, orders = before ++ o :: after ∧ (∀ o' ∈ before, ∃ side, o'.side = .ok side) ∧
      o.side = .error e := by
  induction orders with
  | nil => simp [split]
  | cons o orders ih =>
    cases named : o.side with
    | error e' =>
      rw [split, named, error_bind]
      constructor
      · intro same
        obtain rfl := Except.error.inj same
        exact ⟨[], o, orders, rfl, by simp, named⟩
      · rintro ⟨_ | ⟨o', before⟩, o'', after, same, sided, failed⟩
        · obtain ⟨rfl, rfl⟩ := List.cons.inj same
          exact congrArg _ (Except.error.inj (named.symm.trans failed))
        · obtain ⟨rfl, rfl⟩ := List.cons.inj same
          obtain ⟨side, found⟩ := sided o List.mem_cons_self
          cases named.symm.trans found
    | ok side =>
      -- The first order has its side, so the others decide.
      have rest : split (o :: orders) = .error e ↔ split orders = .error e := by
        rw [split, named, ok_bind]
        cases split orders with
        | error e' => simp [error_bind]
        | ok sides => cases side <;> simp [ok_bind]
      rw [rest, ih]
      constructor
      · rintro ⟨before, o', after, rfl, sided, failed⟩
        exact ⟨o :: before, o', after, rfl,
          List.forall_mem_cons.mpr ⟨⟨side, named⟩, sided⟩, failed⟩
      · rintro ⟨_ | ⟨o', before⟩, o'', after, same, sided, failed⟩
        · obtain ⟨rfl, rfl⟩ := List.cons.inj same
          cases named.symm.trans failed
        · obtain ⟨rfl, rfl⟩ := List.cons.inj same
          exact ⟨before, o'', after, rfl, (List.forall_mem_cons.mp sided).2, failed⟩

/-- Orders that were sorted are all there, each on its side. -/
theorem ofOrders_spec (h : ofOrders pool height orders = .ok b) :
    b.Sided ∧ (b.bids ++ b.asks).Perm orders := by
  obtain ⟨⟨bids, asks⟩, sides, h⟩ := bind_eq_ok.mp h
  obtain rfl := Except.ok.inj h
  obtain ⟨perm, onBids, onAsks⟩ := split_spec sides
  refine ⟨⟨fun o among => onBids o (List.mem_mergeSort.mp among),
    fun o among => onAsks o (List.mem_mergeSort.mp among)⟩, ?_⟩
  exact ((List.mergeSort_perm bids _).append (List.mergeSort_perm asks _)).trans perm

/-- Orders cannot be sorted when the tag of one names no side; the error is that of the first. -/
theorem ofOrders_eq_error_iff : ofOrders pool height orders = .error e ↔
    ∃ before o after, orders = before ++ o :: after ∧ (∀ o' ∈ before, ∃ side, o'.side = .ok side) ∧
      o.side = .error e := by
  rw [← split_eq_error_iff, ofOrders]
  cases split orders <;> simp [ok_bind, error_bind]

end RestingBook

end CrossBook.Chain
