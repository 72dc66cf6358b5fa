import CrossBook.Proofs.Chain.Priority
import CrossBook.Proofs.Tick
import CrossBook.Proofs.Venue.Book

/-!
# Detection looks at enough

Only the best prices of the two books are compared. A higher bid or a lower ask makes a crossing no
shallower, rounding included, so the best prices cross deeply enough whenever any two prices do.

## Main definitions

* `Trade.IsBid`, `Trade.IsAsk` — the prices compared in a direction
* `Trade.Opportunity.Deep` — a bid and an ask are an opportunity
* `Trade.Opportunity.Foremost` — an opportunity between the best prices, of the first direction that
  has any

## Main results

* `Trade.deviationBps_mono` — crossings deepen with a higher bid and a lower ask
* `Trade.Opportunity.Deep.mono` — what is an opportunity remains one at better prices
* `Chain.RestingBook.sorted_of_ofOrders` — the orders of a pool, the best tick first
* `Trade.Opportunity.between_complete` — an opportunity is found when there is any
-/

namespace CrossBook

open Decimal

/-! ### Orders of a pool by their ticks -/

namespace Chain.RestingBook

variable {pool height : Nat} {orders : List Order} {b : RestingBook}

theorem sorted_of_ofOrders (h : ofOrders pool height orders = .ok b) :
    (b.bids.Pairwise fun l m => m.tick ≤ l.tick) ∧
      b.asks.Pairwise fun l m => l.tick ≤ m.tick := by
  have sorted := inPriority_of_ofOrders h
  exact ⟨sorted.bids.imp (by omega), sorted.asks.imp (by omega)⟩

end Chain.RestingBook

/-! ### Human prices of ticks -/

namespace Units

variable {u : Units} {t t' : Int} {p p' : Decimal}

theorem roundsTo_of_humanPriceOfTick (h : u.humanPriceOfTick t = .ok p) :
    RoundsTo (Tick.exactPrice t * 10 ^ u.gap) p := by
  obtain ⟨price, found, h⟩ := bind_eq_ok.mp h
  rw [← Tick.value_of_price (liftM_eq_ok.mp found)]
  exact roundsTo_of_toHumanPrice h

theorem humanPriceOfTick_nonneg (h : u.humanPriceOfTick t = .ok p) : 0 ≤ p.value := by
  have positive := Tick.exactPrice_pos t
  exact (roundsTo_of_humanPriceOfTick h).nonneg (by positivity)

/-- Human prices do not fall with ticks. -/
theorem humanPriceOfTick_mono (h : u.humanPriceOfTick t = .ok p)
    (h' : u.humanPriceOfTick t' = .ok p') (le : t ≤ t') : p.value ≤ p'.value := by
  refine (roundsTo_of_humanPriceOfTick h).mono (roundsTo_of_humanPriceOfTick h') ?_
  exact mul_le_mul_of_nonneg_right (Tick.exactPrice_le le) (by positivity)

end Units

namespace Trade

variable {floor bid ask bid' ask' : Decimal} {direction : Direction}

/-! ### The depth of a crossing -/

@[simp] theorem value_basisPoints : basisPoints.value = 10000 := by
  simp [basisPoints]

/-- The deviation between an ask and a bid takes three operations, and each is rounded. -/
theorem roundsTo_of_deviationBps {d : Decimal} (h : deviationBps bid ask = .ok (some d)) :
    ∃ ratio gap : Decimal, RoundsTo (ask.value / bid.value) ratio ∧
      RoundsTo (1 - ratio.value) gap ∧ RoundsTo (gap.value * 10000) d := by
  unfold deviationBps at h
  cases quotient : ask.div? bid with
  | none =>
    rw [quotient] at h
    cases h
  | some ratio =>
    rw [quotient] at h
    obtain ⟨gap, difference, h⟩ := bind_eq_ok.mp h
    have difference := roundsTo_of_minus difference
    have product := roundsTo_of_mul? (Except.ok.inj h)
    rw [value_one] at difference
    rw [value_basisPoints] at product
    exact ⟨ratio, gap, roundsTo_of_div? quotient, difference, product⟩

/-- Below a positive bid the depth of a crossing has a representable value. -/
theorem exists_deviationBps (positive : 0 < bid.value) (nonneg : 0 ≤ ask.value)
    (le : ask.value ≤ bid.value) : ∃ d, deviationBps bid ask = .ok (some d) := by
  have large : (10000 : ℚ) ≤ maxCoefficient := by norm_num [maxCoefficient]
  have fraction_nonneg : 0 ≤ ask.value / bid.value := div_nonneg nonneg positive.le
  have fraction_le : ask.value / bid.value ≤ 1 := (div_le_one positive).mpr le
  obtain ⟨ratio, quotient⟩ := exists_div? (a := ask) positive
    (by rw [abs_le]; constructor <;> linarith)
  -- rounding leaves the ratio between zero and one, and so the gap
  have rounds := roundsTo_of_div? quotient
  have ratio_nonneg := rounds.nonneg fraction_nonneg
  have ratio_le := rounds.le (d := one) (by rwa [value_one])
  rw [value_one] at ratio_le
  obtain ⟨gap, difference⟩ := exists_sub? (a := one) (b := ratio)
    (by rw [value_one, abs_le]; constructor <;> linarith)
  have rounds := roundsTo_of_sub? difference
  rw [value_one] at rounds
  have gap_nonneg := rounds.nonneg (by linarith)
  have gap_le := rounds.le (d := one) (by rw [value_one]; linarith)
  rw [value_one] at gap_le
  obtain ⟨d, product⟩ := exists_mul? (a := gap) (b := basisPoints)
    (by rw [value_basisPoints, abs_le]; constructor <;> linarith)
  refine ⟨d, ?_⟩
  rw [deviationBps, quotient]
  exact bind_eq_ok.mpr ⟨gap, orAbort_eq_ok.mpr difference, congrArg Except.ok product⟩

/-- A higher bid and a lower ask make a crossing no shallower. -/
theorem deviationBps_mono {d d' : Decimal} (positive : 0 < bid.value) (nonneg : 0 ≤ ask'.value)
    (higher : bid.value ≤ bid'.value) (lower : ask'.value ≤ ask.value)
    (h : deviationBps bid ask = .ok (some d)) (h' : deviationBps bid' ask' = .ok (some d')) :
    d.value ≤ d'.value := by
  obtain ⟨ratio, gap, quotient, difference, product⟩ := roundsTo_of_deviationBps h
  obtain ⟨ratio', gap', quotient', difference', product'⟩ := roundsTo_of_deviationBps h'
  have fractions : ask'.value / bid'.value ≤ ask.value / bid.value :=
    div_le_div₀ (nonneg.trans lower) lower positive higher
  have ratios : ratio'.value ≤ ratio.value := quotient'.mono quotient fractions
  have gaps : gap.value ≤ gap'.value := difference.mono difference' (by linarith)
  exact product.mono product' (by linarith)

/-! ### Opportunities between two prices -/

/-- The prices bid in a direction: those of the chain's bids, or those of the venue's. -/
def IsBid (u : Units) (venue : Venue.Book) (chain : Chain.RestingBook) (direction : Direction)
    (p : Decimal) : Prop :=
  match direction with
  | .chainBid => ∃ o ∈ chain.bids, u.humanPriceOfTick o.tick = .ok p
  | .venueBid => ∃ l ∈ venue.bids, l.price = p

/-- The prices asked in a direction: those of the venue's asks, or those of the chain's. -/
def IsAsk (u : Units) (venue : Venue.Book) (chain : Chain.RestingBook) (direction : Direction)
    (p : Decimal) : Prop :=
  match direction with
  | .chainBid => ∃ l ∈ venue.asks, l.price = p
  | .venueBid => ∃ o ∈ chain.asks, u.humanPriceOfTick o.tick = .ok p

namespace Opportunity

/-- A bid and an ask are an opportunity. -/
def Deep (floor : Decimal) (direction : Direction) (bid ask : Decimal) : Prop :=
  ∃ o, ofPrices floor direction bid ask = .ok (some o)

/-- An opportunity is the crossing of its bid over its ask, and its deviation is theirs. -/
theorem ofPrices_eq_some {o : Opportunity} (h : ofPrices floor direction bid ask = .ok (some o)) :
    0 < bid.value ∧ ask.value < bid.value ∧ deviationBps bid ask = .ok (some o.deviation) ∧
      floor ≤ o.deviation ∧ o.direction = direction ∧ o.bid = bid ∧ o.ask = ask := by
  unfold ofPrices at h
  split_ifs at h with crossed
  · cases h
  rw [not_or, not_le_iff_lt, not_le_iff_lt, lt_iff_value, lt_iff_value, value_zero] at crossed
  obtain ⟨deviation, found, h⟩ := bind_eq_ok.mp h
  cases deviation with
  | none => cases h
  | some d =>
    have h := Except.ok.inj h
    split_ifs at h with deep
    obtain rfl := Option.some.inj h
    exact ⟨crossed.1, crossed.2, found, deep, rfl, rfl, rfl⟩

/-- Below a positive bid, what makes an opportunity is the deviation alone. -/
theorem ofPrices_eq {d : Decimal} (positive : 0 < bid.value) (below : ask.value < bid.value)
    (found : deviationBps bid ask = .ok (some d)) :
    ofPrices floor direction bid ask =
      .ok (if floor ≤ d then some ⟨direction, bid, ask, d⟩ else none) := by
  have crossed : ¬ (bid ≤ zero ∨ bid ≤ ask) := by
    rw [not_or, not_le_iff_lt, not_le_iff_lt, lt_iff_value, lt_iff_value, value_zero]
    exact ⟨positive, below⟩
  rw [ofPrices, if_neg crossed, found]
  rfl

/-- Over an ask that is not negative, a bid is an opportunity or is none. -/
theorem exists_ofPrices (floor : Decimal) (direction : Direction) (bid : Decimal)
    (nonneg : 0 ≤ ask.value) :
    ∃ found, ofPrices floor direction bid ask = .ok found := by
  by_cases crossed : bid ≤ zero ∨ bid ≤ ask
  · exact ⟨none, if_pos crossed⟩
  · rw [not_or, not_le_iff_lt, not_le_iff_lt, lt_iff_value, lt_iff_value, value_zero] at crossed
    obtain ⟨d, found⟩ := exists_deviationBps crossed.1 nonneg crossed.2.le
    exact ⟨_, ofPrices_eq crossed.1 crossed.2 found⟩

/-- What is an opportunity remains one at a higher bid and a lower ask. -/
theorem Deep.mono (h : Deep floor direction bid ask) (nonneg : 0 ≤ ask'.value)
    (higher : bid.value ≤ bid'.value) (lower : ask'.value ≤ ask.value) :
    Deep floor direction bid' ask' := by
  obtain ⟨o, h⟩ := h
  obtain ⟨positive, below, found, deep, -⟩ := ofPrices_eq_some h
  have below' : ask'.value < bid'.value := by linarith
  obtain ⟨d', found'⟩ := exists_deviationBps (by linarith) nonneg below'.le
  have deep' : floor ≤ d' :=
    le_iff_value.mpr ((le_iff_value.mp deep).trans
      (deviationBps_mono positive nonneg higher lower found found'))
  exact ⟨_, by rw [ofPrices_eq (by linarith) below' found', if_pos deep']⟩

/-! ### Opportunities between two books -/

/-- The best of some prices: one that is better than any, and none when there are none. -/
def IsBest (better : Decimal → Decimal → Prop) (prices : Decimal → Prop) : Option Decimal → Prop
  | none => ∀ p, ¬ prices p
  | some best => prices best ∧ ∀ p, prices p → better best p

/-- The best prices are an opportunity when any two prices are. -/
theorem exists_ofPrices? (floor : Decimal) (direction : Direction) {bids asks : Decimal → Prop}
    {bid? ask? : Option Decimal} (highest : IsBest (· ≥ ·) bids bid?) (lowest : IsBest (· ≤ ·) asks ask?)
    (nonneg : ∀ p, asks p → 0 ≤ p.value) :
    ∃ found, ofPrices? floor direction bid? ask? = .ok found ∧
      (found.isSome ↔ ∃ bid ask, bids bid ∧ asks ask ∧ Deep floor direction bid ask) ∧
      ∀ o ∈ found, IsBest (· ≥ ·) bids (some o.bid) ∧ IsBest (· ≤ ·) asks (some o.ask) ∧
        ofPrices floor o.direction o.bid o.ask = .ok (some o) ∧ o.direction = direction := by
  cases bid? with
  | none => exact ⟨none, rfl, by simpa using fun p h => (highest p h).elim, by simp⟩
  | some bid =>
    cases ask? with
    | none => exact ⟨none, rfl, by simpa using fun _ _ p h => (lowest p h).elim, by simp⟩
    | some ask =>
      obtain ⟨found, h⟩ := exists_ofPrices floor direction bid (nonneg ask lowest.1)
      refine ⟨found, h, ⟨?_, ?_⟩, ?_⟩
      · intro some_found
        obtain ⟨o, rfl⟩ := Option.isSome_iff_exists.mp some_found
        exact ⟨bid, ask, highest.1, lowest.1, o, h⟩
      · rintro ⟨bid', ask', member, member', deep⟩
        obtain ⟨o, h'⟩ := deep.mono (nonneg ask lowest.1) (le_iff_value.mp (highest.2 bid' member))
          (le_iff_value.mp (lowest.2 ask' member'))
        obtain rfl := Except.ok.inj (h.symm.trans h')
        rfl
      · rintro o rfl
        obtain ⟨-, -, -, -, rfl, rfl, rfl⟩ := ofPrices_eq_some h
        exact ⟨highest, lowest, h, rfl⟩

variable {u : Units} {venue : Venue.Book} {chain : Chain.RestingBook} {pool height : Nat}
  {orders : List Chain.Order}

theorem isBest_of_isFirst (better : Decimal → Decimal → Prop)
    {before : Venue.Level → Venue.Level → Prop} {levels : List Venue.Level} {best : Option Venue.Level}
    (first : Venue.Levels.IsFirst before levels best)
    (orders : ∀ l m, ¬ before m l → better l.price m.price) :
    IsBest better (fun p => ∃ l ∈ levels, l.price = p) (best.map (·.price)) := by
  cases best with
  | none =>
    rintro p ⟨l, member, -⟩
    exact List.not_mem_nil (first ▸ member)
  | some l =>
    refine ⟨⟨l, first.1, rfl⟩, ?_⟩
    rintro p ⟨m, member, rfl⟩
    exact orders l m (first.2 m member)

/-- The first of sorted orders has the best price. -/
theorem exists_isBest_head (better : Decimal → Decimal → Prop) (refl : ∀ p, better p p)
    {sorted : List Chain.Order} (priced : ∀ o ∈ sorted, ∃ p, u.humanPriceOfTick o.tick = .ok p)
    (ordered : sorted.Pairwise fun o o' => ∀ p p', u.humanPriceOfTick o.tick = .ok p →
      u.humanPriceOfTick o'.tick = .ok p' → better p p') :
    ∃ best, humanPrice? u sorted.head? = .ok best ∧
      IsBest better (fun p => ∃ o ∈ sorted, u.humanPriceOfTick o.tick = .ok p) best := by
  cases sorted with
  | nil => exact ⟨none, rfl, by simp [IsBest]⟩
  | cons first rest =>
    obtain ⟨p, price⟩ := priced first List.mem_cons_self
    refine ⟨some p, by simp [humanPrice?, price, Except.map],
      ⟨first, List.mem_cons_self, price⟩, ?_⟩
    rintro p' ⟨o, member, price'⟩
    rcases List.mem_cons.mp member with rfl | later
    · obtain rfl := Except.ok.inj (price.symm.trans price')
      exact refl p
    · exact List.rel_of_pairwise_cons ordered later p p' price price'

/-- The first orders of a pool have the best prices of their sides. -/
theorem exists_isBest_orders (built : Chain.RestingBook.ofOrders pool height orders = .ok chain)
    (priced : ∀ o ∈ chain.bids ++ chain.asks, ∃ p, u.humanPriceOfTick o.tick = .ok p) :
    (∃ best, humanPrice? u chain.bids.head? = .ok best ∧
      IsBest (· ≥ ·) (fun p => ∃ o ∈ chain.bids, u.humanPriceOfTick o.tick = .ok p) best) ∧
    ∃ best, humanPrice? u chain.asks.head? = .ok best ∧
      IsBest (· ≤ ·) (fun p => ∃ o ∈ chain.asks, u.humanPriceOfTick o.tick = .ok p) best := by
  rw [List.forall_mem_append] at priced
  obtain ⟨bids_sorted, asks_sorted⟩ := Chain.RestingBook.sorted_of_ofOrders built
  constructor
  · refine exists_isBest_head (· ≥ ·) (fun p => le_iff_value.mpr le_rfl) priced.1 ?_
    exact bids_sorted.imp fun lower p p' price price' =>
      le_iff_value.mpr (Units.humanPriceOfTick_mono price' price lower)
  · refine exists_isBest_head (· ≤ ·) (fun p => le_iff_value.mpr le_rfl) priced.2 ?_
    exact asks_sorted.imp fun higher p p' price price' =>
      le_iff_value.mpr (Units.humanPriceOfTick_mono price price' higher)

/-- Some bid and some ask of a direction are an opportunity. -/
def Possible (floor : Decimal) (u : Units) (venue : Venue.Book) (chain : Chain.RestingBook)
    (direction : Direction) : Prop :=
  ∃ bid ask, IsBid u venue chain direction bid ∧ IsAsk u venue chain direction ask ∧
    Deep floor direction bid ask

/-- An opportunity between the best prices of its direction, which is the chain's bid over the
venue's ask whenever that direction has any. -/
structure Foremost (floor : Decimal) (u : Units) (venue : Venue.Book) (chain : Chain.RestingBook)
    (o : Opportunity) : Prop where
  direction_eq : Possible floor u venue chain .chainBid → o.direction = .chainBid
  bid_highest : IsBest (· ≥ ·) (IsBid u venue chain o.direction) (some o.bid)
  ask_lowest : IsBest (· ≤ ·) (IsAsk u venue chain o.direction) (some o.ask)
  deep : ofPrices floor o.direction o.bid o.ask = .ok (some o)

/-- Over asks that are not negative, an opportunity is found exactly when two prices of the books
are one, and it is the one between the best prices. -/
theorem between_complete (built : Chain.RestingBook.ofOrders pool height orders = .ok chain)
    (asks : ∀ l ∈ venue.asks, zero ≤ l.price)
    (priced : ∀ o ∈ chain.bids ++ chain.asks, ∃ p, u.humanPriceOfTick o.tick = .ok p) :
    ∃ found, between floor u venue chain = .ok found ∧
      (found.isSome ↔ ∃ direction, Possible floor u venue chain direction) ∧
      ∀ o ∈ found, Foremost floor u venue chain o := by
  have venue_nonneg : ∀ p, IsAsk u venue chain .chainBid p → 0 ≤ p.value := by
    rintro p ⟨l, member, rfl⟩
    simpa [le_iff_value] using asks l member
  have chain_nonneg : ∀ p, IsAsk u venue chain .venueBid p → 0 ≤ p.value := by
    rintro p ⟨o, -, price⟩
    exact Units.humanPriceOfTick_nonneg price
  obtain ⟨⟨chainBid, bid_eq, highest⟩, chainAsk, ask_eq, lowest⟩ := exists_isBest_orders built priced
  have venue_bid := isBest_of_isFirst (· ≥ ·) (Venue.Levels.isFirst_highest? venue.bids)
    fun l m not_higher => le_iff_value.mpr (not_lt.mp (not_higher ∘ lt_iff_value.mpr))
  have venue_ask := isBest_of_isFirst (· ≤ ·) (Venue.Levels.isFirst_lowest? venue.asks)
    fun l m not_lower => le_iff_value.mpr (not_lt.mp (not_lower ∘ lt_iff_value.mpr))
  obtain ⟨one, one_eq, one_some, one_best⟩ :=
    exists_ofPrices? floor .chainBid highest venue_ask venue_nonneg
  obtain ⟨other, other_eq, other_some, other_best⟩ :=
    exists_ofPrices? floor .venueBid venue_bid lowest chain_nonneg
  cases one with
  | some o =>
    refine ⟨some o, ?_, ?_, ?_⟩
    · exact bind_eq_ok.mpr ⟨chainBid, bid_eq, bind_eq_ok.mpr ⟨some o, one_eq, rfl⟩⟩
    · exact iff_of_true rfl ⟨.chainBid, one_some.mp rfl⟩
    · intro _ same
      obtain rfl := Option.some.inj same
      obtain ⟨bid_best, ask_best, deep, direction⟩ := one_best o rfl
      exact ⟨fun _ => direction, direction ▸ bid_best, direction ▸ ask_best, deep⟩
  | none =>
    have impossible : ¬ Possible floor u venue chain .chainBid := fun h => by
      simpa using one_some.mpr h
    refine ⟨other, ?_, ?_, ?_⟩
    · exact bind_eq_ok.mpr ⟨chainBid, bid_eq, bind_eq_ok.mpr ⟨none, one_eq,
        bind_eq_ok.mpr ⟨chainAsk, ask_eq, other_eq⟩⟩⟩
    · rw [other_some]
      constructor
      · exact fun h => ⟨.venueBid, h⟩
      · rintro ⟨_ | _, h⟩
        · exact (impossible h).elim
        · exact h
    · intro o found
      obtain ⟨bid_best, ask_best, deep, direction⟩ := other_best o found
      exact ⟨fun h => (impossible h).elim, direction ▸ bid_best, direction ▸ ask_best, deep⟩

/-- Neither of the two prices that cross farthest comes first in what the books are made from. -/
theorem between_complete_of_two_bids :
    let venue := { Venue.Book.empty "ATOMUSDC" with
      asks := [⟨.ofWord 19 1, .ofWord 5 0⟩, ⟨.ofWord 14 1, .ofWord 3 0⟩] }
    let low := Chain.Order.fresh 500000 1 "bid" "maker" (.ofWord 10 0)
    let high := Chain.Order.fresh 1000000 2 "bid" "maker" (.ofWord 20 0)
    let chain : Chain.RestingBook := ⟨4, 9, [high, low], []⟩
    Chain.RestingBook.ofOrders 4 9 [low, high] = .ok chain ∧ (∀ l ∈ venue.asks, zero ≤ l.price) ∧
      (∀ o ∈ chain.bids ++ chain.asks, ∃ p, Units.humanPriceOfTick ⟨6, 6⟩ o.tick = .ok p) ∧
      ∃ o, between (.ofWord 60 0) ⟨6, 6⟩ venue chain = .ok (some o) ∧
        Foremost (.ofWord 60 0) ⟨6, 6⟩ venue chain o ∧ o.bid.SameValue (.ofWord 2 0) ∧
        o.ask.SameValue (.ofWord 14 1) := by
  intro venue low high chain
  have built : Chain.RestingBook.ofOrders 4 9 [low, high] = .ok chain := by
    have sides : Chain.RestingBook.split [low, high] = .ok ([low, high], []) := by decide
    have later : Chain.RestingBook.bidBefore low high = false := by decide
    have sorted : [low, high].mergeSort Chain.RestingBook.bidBefore = [high, low] := by
      simp [List.mergeSort, later]
    refine bind_eq_ok.mpr ⟨_, sides, ?_⟩
    dsimp only
    rw [sorted, List.mergeSort_nil]
  have asks : ∀ l ∈ venue.asks, zero ≤ l.price := by decide
  have prices : ∀ o ∈ chain.bids ++ chain.asks,
      ∃ p ∈ (Units.humanPriceOfTick ⟨6, 6⟩ o.tick).toOption, zero ≤ p := by decide +kernel
  have priced : ∀ o ∈ chain.bids ++ chain.asks,
      ∃ p, Units.humanPriceOfTick ⟨6, 6⟩ o.tick = .ok p :=
    fun o member => (exists_eq_ok (prices o member)).imp fun _ => And.left
  obtain ⟨_, detected, o, rfl, values⟩ := exists_eq_ok
    (x := between (.ofWord 60 0) ⟨6, 6⟩ venue chain)
    (P := fun found => ∃ o ∈ found, o.bid.SameValue (.ofWord 2 0) ∧ o.ask.SameValue (.ofWord 14 1))
    (by decide +kernel)
  obtain ⟨_, found, -, first⟩ := @between_complete (.ofWord 60 0) _ _ _ _ _ _ built asks priced
  obtain rfl := Except.ok.inj (detected.symm.trans found)
  exact ⟨built, asks, priced, o, detected, first o rfl, values⟩

end Opportunity

end Trade

end CrossBook
