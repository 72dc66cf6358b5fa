import CrossBook.Proofs.Trade.Funding

/-!
# Cutting a plan down again

What is left of a plan is decided by the base it is cut down to: the steps and the touches that
begin before it, priced from the last of these steps. All of it is there still after the plan has
been cut down to a larger base, so cutting down in two goes loses nothing that cutting down in one
would keep. A walk never takes base back, however its sums are rounded, so the touches before a base
are the first ones.

## Main results

* `Trade.filter_lt_filter_lt` — what begins before the smaller of two bases
* `Trade.Plan.resize_of_resize` — a plan cut down again
* `Trade.Plan.Consistent.touches_of_resize` — the touches a plan keeps
* `Trade.Plan.resize_composes` — both, for sized plans
-/

namespace CrossBook.Trade

open Decimal

/-- What begins before the smaller of two bases begins before the larger. -/
theorem filter_lt_filter_lt {α : Type} {begins : α → Decimal} {b b' : Decimal} (le : b' ≤ b)
    (l : List α) :
    ((l.filter fun a => begins a < b).filter fun a => begins a < b') =
      l.filter fun a => begins a < b' := by
  rw [List.filter_filter]
  refine List.filter_congr fun a _ => ?_
  by_cases before : begins a < b'
  · have early := (lt_iff_value.mp before).trans_le (le_iff_value.mp le)
    rw [decide_eq_true before, decide_eq_true (lt_iff_value.mpr early), Bool.and_self]
  · rw [decide_eq_false before, Bool.false_and]

namespace Plan

variable {u : Units} {d : Direction} {venue : List Venue.Level} {chain : List Chain.Order}
  {p r : Plan} {b b' q : Decimal}

/-- A plan that was cut down to a base is cut down to a smaller one as if it were whole, with the
same plan or the same abort. -/
theorem resize_of_resize (le : b' ≤ b) (h : p.resize b q = .ok r) (q' : Decimal) :
    r.resize b' q' = p.resize b' q' := by
  obtain ⟨chainQuote, -, h⟩ := bind_eq_ok.mp h
  obtain rfl := Except.ok.inj h
  rw [resize, resize, filter_lt_filter_lt le, filter_lt_filter_lt le]

/-- The touches that are kept are the first ones. -/
theorem Consistent.touches_of_resize (consistent : p.Consistent) (h : p.resize b q = .ok r) :
    r.touches = p.touches.takeWhile fun t => t.baseBefore < b := by
  obtain ⟨chainQuote, -, h⟩ := bind_eq_ok.mp h
  obtain rfl := Except.ok.inj h
  exact filter_lt_eq_takeWhile consistent.touches_sorted

/-- No touch is kept where no base is. -/
theorem Consistent.claims_of_resize_nonpos (consistent : p.Consistent) (h : p.resize b q = .ok r)
    (nonpos : b.value ≤ 0) : r.claims = [] := by
  obtain ⟨chainQuote, -, h⟩ := bind_eq_ok.mp h
  obtain rfl := Except.ok.inj h
  rw [claims, filter_lt_eq_nil (fun t among => (consistent.touches_within t among).1) nonpos]
  rfl

/-- A sized plan that is cut down, and cut down again to no more base, is the plan cut down at once:
the same in all its parts and whatever is done with it later. Cutting it down sets base and quote as
asked and keeps the claims of the orders that were reached before that base, which are the first of
the plan's; without base there are none. -/
theorem resize_composes (sized : Plan.size u d venue chain = .ok p) :
    (∀ b b' q q' r, b' ≤ b → p.resize b q = .ok r → r.resize b' q' = p.resize b' q') ∧
      ∀ b q r, p.resize b q = .ok r → r.base = b ∧ r.quote = q ∧ r.claims <+: p.claims ∧
        (r.touches = p.touches.takeWhile fun t => t.baseBefore < b) ∧
        (b ≤ zero → r.claims = []) := by
  have consistent := size_consistent sized
  refine ⟨fun b b' q q' r le h => resize_of_resize le h q', fun b q r h => ?_⟩
  have touches := consistent.touches_of_resize h
  obtain ⟨base, quote⟩ := amounts_of_resize h
  refine ⟨base, quote, ?_, touches, fun nothing => ?_⟩
  · rw [claims, touches]
    exact (List.takeWhile_prefix _).map _
  · refine consistent.claims_of_resize_nonpos h ?_
    simpa using le_iff_value.mp nothing

/-- A purchase from two orders is cut down within the second, and then to the end of the first: the
second order is not reached before that base, and all of the first is paid for. -/
theorem resize_composes_of_boundary :
    let venue : List Venue.Level := [⟨.ofWord 61000 0, .ofWord 6100000000 0⟩]
    let chain : List Chain.Order :=
      [.fresh 23000000 3 "ask" "maker" (.ofWord 100000 0),
        .fresh 23030000 4 "ask" "maker" (.ofWord 100000 0)]
    let b : Decimal := .ofWord 150000 0
    let b' : Decimal := .ofWord 1000000 1
    ∃ p r r', Plan.size ⟨8, 6⟩ .venueBid venue chain = .ok p ∧ b' ≤ b ∧
      p.resize b zero = .ok r ∧ r.claims <+: p.claims ∧ r.claims = [⟨23000000, 3⟩, ⟨23030000, 4⟩] ∧
      r.resize b' zero = .ok r' ∧ p.resize b' zero = .ok r' ∧ r'.claims = [⟨23000000, 3⟩] ∧
      r'.chainQuote = .ofWord 60000000 0 ∧
      ∀ none, p.resize zero zero = .ok none → none.claims = [] := by
  intro venue chain b b'
  obtain ⟨p, sized, first, second⟩ := exists_eq_ok
    (x := Plan.size ⟨8, 6⟩ .venueBid venue chain)
    (P := fun p =>
      (∃ r ∈ (p.resize b zero).toOption, r.claims = [⟨23000000, 3⟩, ⟨23030000, 4⟩]) ∧
        ∃ r' ∈ (p.resize b' zero).toOption, r'.claims = [⟨23000000, 3⟩] ∧
          r'.chainQuote = .ofWord 60000000 0)
    (by decide +kernel)
  obtain ⟨r, cut, both⟩ := exists_eq_ok first
  obtain ⟨r', again, one, cost⟩ := exists_eq_ok second
  obtain ⟨twice, kept⟩ := resize_composes sized
  have le : b' ≤ b := by decide
  obtain ⟨-, -, firsts, -⟩ := kept b zero r cut
  exact ⟨p, r, r', sized, le, cut, firsts, both, (twice b b' zero zero r le cut).trans again, again,
    one, cost, fun none h => (kept zero zero none h).2.2.2.2 (by decide)⟩

end Plan

end CrossBook.Trade
