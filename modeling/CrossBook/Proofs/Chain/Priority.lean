import CrossBook.Proofs.Chain.Sides
import CrossBook.Trade.Opportunity
import CrossBook.Trade.Walk
import Mathlib.Data.List.Pairwise
import Mathlib.Data.List.Perm.Basic

/-!
# The priority of resting orders

The sides of a pool are sorted by tick and by number within a tick. In what order the orders were
read is then seen only in orders of one side, tick and number, and what is traded on a pool sees
less of it: the best prices are the same in any case.

## Main definitions

* `Chain.Order.key` — what orders are told apart by
* `Chain.RestingBook.InPriority` — both sides in priority order

## Main results

* `Chain.RestingBook.inPriority_of_ofOrders` — sorted orders are in priority order
* `Chain.RestingBook.eq_of_perm` — orders that are told apart are sorted alike from any order
* `Trade.Opportunity.between_of_perm` — detection does not depend on the order of the orders
* `Chain.RestingBook.ofOrders_canonical` — when orders can be sorted, and what becomes of them
-/

namespace CrossBook

namespace Chain

/-- The tag, the tick and the number of an order. -/
def Order.key (o : Order) : String × Int × Int := (o.tag, o.tick, o.id)

theorem Order.side_eq_ok_iff_tag {o : Order} {side : Side} :
    o.side = .ok side ↔ o.tag = side.name :=
  side_eq_ok_iff.trans Side.ofTag?_eq_some_iff

theorem Order.exists_side_iff {o : Order} :
    (∃ side, o.side = .ok side) ↔ o.tag = "bid" ∨ o.tag = "ask" := by
  simp only [side_eq_ok_iff_tag]
  constructor
  · rintro ⟨_ | _, named⟩
    · exact .inl named
    · exact .inr named
  · rintro (named | named)
    · exact ⟨.bid, named⟩
    · exact ⟨.ask, named⟩

/-- An order with another tag is on no side. -/
theorem Order.side_eq_error {o : Order} (untold : ¬ (o.tag = "bid" ∨ o.tag = "ask")) :
    o.side = .error (.unknownDirection o.tag) := by
  cases h : o.side with
  | ok side => exact absurd (exists_side_iff.mp ⟨side, h⟩) untold
  | error e => rw [(side_eq_error_iff.mp h).2]

namespace RestingBook

variable {orders orders' : List Order} {b b' : RestingBook} {pool height : Nat}

/-- The sides are sorted by tick, the best first, and the orders of a tick by number. -/
structure InPriority (b : RestingBook) : Prop where
  bids : b.bids.Pairwise fun o p => p.tick < o.tick ∨ o.tick = p.tick ∧ o.id ≤ p.id
  asks : b.asks.Pairwise fun o p => o.tick < p.tick ∨ o.tick = p.tick ∧ o.id ≤ p.id

theorem inPriority_of_ofOrders (h : ofOrders pool height orders = .ok b) : b.InPriority := by
  obtain ⟨⟨bids, asks⟩, -, h⟩ := bind_eq_ok.mp h
  obtain rfl := Except.ok.inj h
  constructor
  · refine (List.pairwise_mergeSort ?_ ?_ bids).imp ?_ <;>
      simp only [bidBefore, Bool.or_eq_true, Bool.and_eq_true, decide_eq_true_eq] <;> omega
  · refine (List.pairwise_mergeSort ?_ ?_ asks).imp ?_ <;>
      simp only [askBefore, Bool.or_eq_true, Bool.and_eq_true, decide_eq_true_eq] <;> omega

theorem labels_of_ofOrders (h : ofOrders pool height orders = .ok b) :
    b.pool = pool ∧ b.height = height := by
  obtain ⟨⟨bids, asks⟩, -, h⟩ := bind_eq_ok.mp h
  obtain rfl := Except.ok.inj h
  exact ⟨rfl, rfl⟩

/-- Orders can be sorted when every one of them is on a side. -/
theorem exists_ofOrders_iff :
    (∃ b, ofOrders pool height orders = .ok b) ↔ ∀ o ∈ orders, ∃ side, o.side = .ok side := by
  constructor
  · rintro ⟨b, h⟩ o among
    obtain ⟨sided, perm⟩ := ofOrders_spec h
    rcases List.mem_append.mp (perm.mem_iff.mpr among) with bid | ask
    · exact ⟨.bid, sided.bids o bid⟩
    · exact ⟨.ask, sided.asks o ask⟩
  · intro sided
    cases h : ofOrders pool height orders with
    | ok b => exact ⟨b, rfl⟩
    | error e =>
      obtain ⟨before, o, after, rfl, -, failed⟩ := ofOrders_eq_error_iff.mp h
      obtain ⟨side, found⟩ := sided o (by simp)
      cases failed.symm.trans found

/-- The bids are the orders with the tag of a bid, and the asks those with the tag of an ask. -/
theorem perm_filter_of_ofOrders (h : ofOrders pool height orders = .ok b) :
    b.bids.Perm (orders.filter fun o => o.tag = "bid") ∧
      b.asks.Perm (orders.filter fun o => o.tag = "ask") := by
  obtain ⟨sided, perm⟩ := ofOrders_spec h
  have bids : ∀ o ∈ b.bids, o.tag = "bid" :=
    fun o among => Order.side_eq_ok_iff_tag.mp (sided.bids o among)
  have asks : ∀ o ∈ b.asks, o.tag = "ask" :=
    fun o among => Order.side_eq_ok_iff_tag.mp (sided.asks o among)
  have left : (b.bids ++ b.asks).filter (fun o => o.tag = "bid") = b.bids := by
    rw [List.filter_append, List.filter_eq_self.mpr (by simpa using bids),
      List.filter_eq_nil_iff.mpr fun o among => by simp [asks o among], List.append_nil]
  have right : (b.bids ++ b.asks).filter (fun o => o.tag = "ask") = b.asks := by
    rw [List.filter_append, List.filter_eq_nil_iff.mpr fun o among => by simp [bids o among],
      List.filter_eq_self.mpr (by simpa using asks), List.nil_append]
  exact ⟨left ▸ perm.filter _, right ▸ perm.filter _⟩

/-- Orders of one side that are told apart have one sorted copy. -/
theorem eq_of_perm_of_sorted {before : Order → Order → Prop} {side : Side} {l l' : List Order}
    (apart : (orders.map Order.key).Nodup) (sided : ∀ o ∈ l, o ∈ orders ∧ o.side = .ok side)
    (ties : ∀ o p, before o p → before p o → o.tick = p.tick ∧ o.id = p.id)
    (sorted' : l'.Pairwise before) (sorted : l.Pairwise before) (perm : l'.Perm l) : l' = l := by
  refine perm.eq_of_pairwise (fun o p o_mem p_mem first second => ?_) sorted' sorted
  obtain ⟨o_mem, o_side⟩ := sided o (perm.mem_iff.mp o_mem)
  obtain ⟨p_mem, p_side⟩ := sided p p_mem
  obtain ⟨ticks, ids⟩ := ties o p first second
  have tags := (Order.side_eq_ok_iff_tag.mp o_side).trans (Order.side_eq_ok_iff_tag.mp p_side).symm
  exact List.inj_on_of_nodup_map apart o_mem p_mem (by simp [Order.key, tags, ticks, ids])

/-- Orders that are told apart are sorted alike from any order. -/
theorem eq_of_perm (h : ofOrders pool height orders = .ok b)
    (h' : ofOrders pool height orders' = .ok b') (perm : orders'.Perm orders)
    (apart : (orders.map Order.key).Nodup) : b' = b := by
  obtain ⟨sided, all⟩ := ofOrders_spec h
  obtain ⟨bids, asks⟩ := perm_filter_of_ofOrders h
  obtain ⟨bids', asks'⟩ := perm_filter_of_ofOrders h'
  have first := inPriority_of_ofOrders h
  have second := inPriority_of_ofOrders h'
  have bids_eq : b'.bids = b.bids :=
    eq_of_perm_of_sorted apart
      (fun o among => ⟨all.subset (List.mem_append_left _ among), sided.bids o among⟩)
      (fun o p before after => by omega) second.bids first.bids
      (bids'.trans ((perm.filter _).trans bids.symm))
  have asks_eq : b'.asks = b.asks :=
    eq_of_perm_of_sorted apart
      (fun o among => ⟨all.subset (List.mem_append_right _ among), sided.asks o among⟩)
      (fun o p before after => by omega) second.asks first.asks
      (asks'.trans ((perm.filter _).trans asks.symm))
  obtain ⟨pool_eq, height_eq⟩ := labels_of_ofOrders h
  obtain ⟨pool_eq', height_eq'⟩ := labels_of_ofOrders h'
  cases b
  cases b'
  simp_all

/-- The sorted ticks of a side are the same from any order. -/
theorem ticks_of_perm (h : ofOrders pool height orders = .ok b)
    (h' : ofOrders pool height orders' = .ok b') (perm : orders'.Perm orders) :
    b'.bids.map Order.tick = b.bids.map Order.tick ∧
      b'.asks.map Order.tick = b.asks.map Order.tick := by
  obtain ⟨bids, asks⟩ := perm_filter_of_ofOrders h
  obtain ⟨bids', asks'⟩ := perm_filter_of_ofOrders h'
  have first := inPriority_of_ofOrders h
  have second := inPriority_of_ofOrders h'
  have falling : ∀ {c : RestingBook}, c.InPriority →
      (c.bids.map Order.tick).Pairwise fun m n => n ≤ m :=
    fun sorted => List.pairwise_map.mpr (sorted.bids.imp (by omega))
  have rising : ∀ {c : RestingBook}, c.InPriority →
      (c.asks.map Order.tick).Pairwise fun m n => m ≤ n :=
    fun sorted => List.pairwise_map.mpr (sorted.asks.imp (by omega))
  exact ⟨((bids'.trans ((perm.filter _).trans bids.symm)).map _).eq_of_pairwise
      (fun _ _ _ _ le ge => by omega) (falling second) (falling first),
    ((asks'.trans ((perm.filter _).trans asks.symm)).map _).eq_of_pairwise
      (fun _ _ _ _ le ge => by omega) (rising second) (rising first)⟩

end RestingBook

end Chain

namespace Trade.Opportunity

variable {u : Units} {chain chain' : Chain.RestingBook}

theorem humanPrice?_congr {o o' : Option Chain.Order}
    (ticks : o.map Chain.Order.tick = o'.map Chain.Order.tick) :
    humanPrice? u o = humanPrice? u o' := by
  cases o <;> cases o' <;> simp_all [humanPrice?]

/-- Detection looks at the ticks of the best orders only. -/
theorem between_congr (bids : chain.bids.map Chain.Order.tick = chain'.bids.map Chain.Order.tick)
    (asks : chain.asks.map Chain.Order.tick = chain'.asks.map Chain.Order.tick) (floor : Decimal)
    (venue : Venue.Book) : between floor u venue chain = between floor u venue chain' := by
  have bid : humanPrice? u chain.bestBid = humanPrice? u chain'.bestBid :=
    humanPrice?_congr (by
      rw [Chain.RestingBook.bestBid, Chain.RestingBook.bestBid, ← List.head?_map, bids,
        List.head?_map])
  have ask : humanPrice? u chain.bestAsk = humanPrice? u chain'.bestAsk :=
    humanPrice?_congr (by
      rw [Chain.RestingBook.bestAsk, Chain.RestingBook.bestAsk, ← List.head?_map, asks,
        List.head?_map])
  unfold between
  rw [bid, ask]

end Trade.Opportunity

namespace Chain.RestingBook

open Trade

/-- Orders are sorted into a book of their pool and height unless the tag of one is neither that of
a bid nor that of an ask, and the first such tag is told. The book holds just the orders, each on
its side and both sides in priority order. Read in any other order, they are sorted again and
nothing else is detected; and where tag, tick and number tell the orders apart, the book is the
same, and so are the plans that are sized on it. -/
theorem ofOrders_canonical (pool height : Nat) (orders : List Order) :
    ((∃ e, ofOrders pool height orders = .error e) ↔
      ∃ o ∈ orders, o.tag ≠ "bid" ∧ o.tag ≠ "ask") ∧
    (∀ before o after, orders = before ++ o :: after →
      (∀ p ∈ before, p.tag = "bid" ∨ p.tag = "ask") → o.tag ≠ "bid" → o.tag ≠ "ask" →
      ofOrders pool height orders = .error (.unknownDirection o.tag)) ∧
    ∀ b, ofOrders pool height orders = .ok b →
      b.pool = pool ∧ b.height = height ∧ b.Sided ∧ (b.bids ++ b.asks).Perm orders ∧
      b.InPriority ∧
      ∀ orders', orders'.Perm orders → ∃ b', ofOrders pool height orders' = .ok b' ∧
        (∀ floor u venue,
          Opportunity.between floor u venue b' = Opportunity.between floor u venue b) ∧
        ((orders.map Order.key).Nodup → b' = b ∧ ∀ u levels,
          Plan.size u .chainBid levels b'.bids = Plan.size u .chainBid levels b.bids ∧
          Plan.size u .venueBid levels b'.asks = Plan.size u .venueBid levels b.asks) := by
  have fails : (∃ e, ofOrders pool height orders = .error e) ↔
      ¬ ∃ b, ofOrders pool height orders = .ok b := by
    cases ofOrders pool height orders <;> simp
  refine ⟨?_, ?_, fun b h => ?_⟩
  · simp only [fails, exists_ofOrders_iff, Order.exists_side_iff]
    push Not
    rfl
  · intro before o after parts sided bid ask
    exact ofOrders_eq_error_iff.mpr ⟨before, o, after, parts,
      fun p among => Order.exists_side_iff.mpr (sided p among),
      Order.side_eq_error (not_or.mpr ⟨bid, ask⟩)⟩
  · obtain ⟨pool_eq, height_eq⟩ := labels_of_ofOrders h
    obtain ⟨sided, all⟩ := ofOrders_spec h
    refine ⟨pool_eq, height_eq, sided, all, inPriority_of_ofOrders h, fun orders' perm => ?_⟩
    obtain ⟨b', h'⟩ : ∃ b', ofOrders pool height orders' = .ok b' :=
      exists_ofOrders_iff.mpr fun o among =>
        exists_ofOrders_iff.mp ⟨b, h⟩ o (perm.mem_iff.mp among)
    obtain ⟨bids, asks⟩ := ticks_of_perm h h' perm
    refine ⟨b', h', fun floor u venue => Opportunity.between_congr bids asks floor venue, ?_⟩
    intro apart
    obtain rfl := eq_of_perm h h' perm apart
    exact ⟨rfl, fun _ _ => ⟨rfl, rfl⟩⟩

/-- Three bids on two ticks and two asks. -/
def fiveOrders : List Order :=
  [.fresh 100 3 "bid" "maker" .one, .fresh 500 5 "ask" "maker" .one,
    .fresh 200 4 "bid" "maker" .one, .fresh 200 2 "bid" "maker" .one,
    .fresh 300 6 "ask" "maker" .one]

/-- Read backwards, five orders make the same book, and one order more with another tag makes none
with them. -/
theorem ofOrders_canonical_of_fiveOrders :
    ofOrders 7 42 (fiveOrders ++ [.fresh 0 7 "sideways" "maker" .one]) =
        .error (.unknownDirection "sideways") ∧
      ∃ b, ofOrders 7 42 fiveOrders = .ok b ∧ ofOrders 7 42 fiveOrders.reverse = .ok b ∧
        b.bids.map Order.id = [2, 4, 3] ∧ b.asks.map Order.id = [6, 5] ∧ b.InPriority := by
  constructor
  · exact (ofOrders_canonical 7 42 _).2.1 fiveOrders _ [] rfl (by decide) (by decide) (by decide)
  · obtain ⟨b, sorted, bids, asks⟩ : ∃ b, ofOrders 7 42 fiveOrders = .ok b ∧
        b.bids.map Order.id = [2, 4, 3] ∧ b.asks.map Order.id = [6, 5] := by
      refine ⟨_, rfl, ?_, ?_⟩
      · simp [List.mergeSort, List.MergeSort.Internal.splitInTwo, bidBefore, Order.fresh]
      · simp [List.mergeSort, List.MergeSort.Internal.splitInTwo, askBefore, Order.fresh]
    obtain ⟨-, -, -, -, priority, reorder⟩ := (ofOrders_canonical 7 42 fiveOrders).2.2 b sorted
    obtain ⟨b', sorted', -, same⟩ := reorder _ fiveOrders.reverse_perm
    obtain ⟨rfl, -⟩ := same (by decide)
    exact ⟨b', sorted, sorted', bids, asks, priority⟩

end Chain.RestingBook

end CrossBook
