import CrossBook.Proofs.Conversions
import CrossBook.Proofs.Decimal.Magnitude
import CrossBook.Proofs.Trade.Depth

/-!
# Sums that overflow

The products and quotients of a walk are checked, and so are its differences in effect: an amount is
only taken from an amount that is not below it by more than rounding. The running sums of the plan
are not checked, and abort when they leave the decimals. Each match adds no more than the amounts
and prices of the books allow, and there are fewer matches than entries.

## Main definitions

* `Trade.Direction.BoundedBy` — whole numbers that bound the books
* `Trade.Plan.HasRoom` — the sums of a plan have room for a match
* `Trade.Walk.Within` — the sums of a walk stay within the bounds

## Main results

* `Trade.Walk.failsOnly_step` — the failures of one step
* `Trade.Walk.Within.hasRoom`, `Trade.Walk.Within.step` — bounded books leave room
* `Trade.Plan.size_reports` — a walk ends with a plan or an error, unless its sums overflow
-/

namespace CrossBook.Trade

open Decimal

variable {P : Failure → Prop}

/-- Whole numbers that bound the amounts of the side that holds base, and the prices of both
books. -/
structure Direction.BoundedBy (d : Direction) (u : Units) (amount price : ℕ)
    (venue : List Venue.Level) (chain : List Chain.Order) : Prop where
  amounts : match d with
    | .chainBid => ∀ l ∈ venue, l.size.value ≤ amount
    | .venueBid => ∀ o ∈ chain, o.quantity.value ≤ amount
  venuePrices : ∀ l ∈ venue, |levelPrice u l| ≤ price
  chainPrices : ∀ o ∈ chain, Tick.exactPrice o.tick ≤ price

/-! ### Failures of a step -/

namespace Plan

variable {p : Plan} {matched venuePrice chainPrice : Decimal}

/-- The sums of the plan have room for a match. -/
structure HasRoom (p : Plan) (matched venuePrice chainPrice : Decimal) : Prop where
  quote : ∀ proceeds, matched.mul? venuePrice = some proceeds → ∃ q, p.quote.add? proceeds = some q
  base : ∃ b, p.base.add? matched = some b
  chainQuote : ∀ cost, matched.mul? chainPrice = some cost → ∃ c, p.chainQuote.add? cost = some c

/-- A plan is extended, or a product is reported, or a sum overflows. -/
theorem failsOnly_extend (overflow : P sizingOverflow)
    (room : P (.abort .addition) ∨ p.HasRoom matched venuePrice chainPrice) :
    FailsOnly P (p.extend matched venuePrice chainPrice) := by
  refine failsOnly_bind.mpr ⟨failsOnly_orError overflow, fun proceeds product => ?_⟩
  refine failsOnly_bind.mpr ⟨failsOnly_orAbort (room.imp_right fun room =>
    room.quote proceeds (orError_eq_ok.mp product)), fun quote _ => ?_⟩
  refine failsOnly_bind.mpr ⟨failsOnly_orAbort (room.imp_right fun room => room.base),
    fun base _ => ?_⟩
  refine failsOnly_bind.mpr ⟨failsOnly_orError overflow, fun cost product => ?_⟩
  exact failsOnly_bind.mpr ⟨failsOnly_orAbort (room.imp_right fun room =>
    room.chainQuote cost (orError_eq_ok.mp product)), fun chainQuote _ => failsOnly_ok _⟩

end Plan

namespace Walk

variable {u : Units} {w next : Walk} {amount price : ℕ}

theorem hasRoom_reached {matched venuePrice chainPrice : Decimal} (o : Chain.Order)
    (h : w.plan.HasRoom matched venuePrice chainPrice) :
    (w.reached o).HasRoom matched venuePrice chainPrice := by
  obtain ⟨quote, base, chainQuote⟩ := amounts_reached w o
  exact ⟨by rw [quote]; exact h.quote, by rw [base]; exact h.base,
    by rw [chainQuote]; exact h.chainQuote⟩

/-- What a match takes from an amount of quote can be subtracted. -/
theorem failsOnly_quoteLeft {left ofBase matched unitPrice : Decimal}
    (overflow : P Plan.sizingOverflow) (left_nonneg : 0 ≤ left.value)
    (matched_nonneg : 0 ≤ matched.value) (price_nonneg : 0 ≤ unitPrice.value) :
    FailsOnly P (quoteLeft left ofBase matched unitPrice) := by
  unfold quoteLeft
  split_ifs
  · exact failsOnly_ok _
  · refine failsOnly_bind.mpr ⟨failsOnly_orError overflow, fun taken product => ?_⟩
    have taken_nonneg := (roundsTo_of_mul? (orError_eq_ok.mp product)).nonneg
      (mul_nonneg matched_nonneg price_nonneg)
    exact failsOnly_orAbort (.inr (exists_minus left_nonneg taken_nonneg))

/-- A level and an order that meet are matched, or a product or a quotient is reported, or a sum of
the plan overflows. -/
theorem failsOnly_matchFirst (overflow : P Plan.sizingOverflow) {f : Front u w}
    {venuePrice : Decimal} (crossing : f.Crossing) (venueLeft_pos : 0 < w.venueLeft.value)
    (chainLeft_pos : 0 < w.chainLeft.value) (scaled : u.toChainPrice f.level.price = .ok venuePrice)
    (room : ∀ m : Meeting u w, P (.abort .addition) ∨
      w.plan.HasRoom m.matched m.venuePrice m.chainPrice) :
    FailsOnly P (w.matchFirst f.order venuePrice f.chainPrice) := by
  refine failsOnly_bind.mpr ⟨?_, fun venueBase venueBase_eq => failsOnly_bind.mpr ⟨?_,
    fun chainBase chainBase_eq => ?_⟩⟩
  · unfold Walk.venueBase
    cases w.plan.direction
    · exact failsOnly_ok _
    · exact failsOnly_orError overflow
  · unfold Walk.chainBase
    cases w.plan.direction
    · exact failsOnly_orError overflow
    · exact failsOnly_ok _
  let m : Meeting u w := ⟨f, crossing, venueLeft_pos, chainLeft_pos, venuePrice, venueBase,
    chainBase, scaled, venueBase_eq, chainBase_eq⟩
  refine failsOnly_bind.mpr ⟨Plan.failsOnly_extend overflow
    ((room m).imp_right (hasRoom_reached f.order)), fun plan extended => ?_⟩
  obtain ⟨proceeds, cost, extended⟩ := Plan.extends_of_extend extended
  have direction : plan.direction = w.plan.direction :=
    extended.direction_eq.trans (direction_reached w f.order)
  -- what is left of both sides is subtracted from amounts that are positive
  rw [direction]
  rcases m.sides with ⟨side, -, -⟩ | ⟨side, -, quotient⟩
  · rw [side]
    exact failsOnly_bind.mpr
      ⟨failsOnly_orAbort (.inr (exists_minus venueLeft_pos.le m.matched_nonneg)), fun _ _ =>
        failsOnly_bind.mpr ⟨failsOnly_quoteLeft overflow chainLeft_pos.le m.matched_nonneg
          m.chainPrice_pos.le, fun _ _ => failsOnly_ok _⟩⟩
  · rw [side]
    have venuePrice_pos := m.venuePrice_pos side (value_ne_zero_of_div? quotient)
    exact failsOnly_bind.mpr
      ⟨failsOnly_orAbort (.inr (exists_minus chainLeft_pos.le m.matched_nonneg)), fun _ _ =>
        failsOnly_bind.mpr ⟨failsOnly_quoteLeft overflow venueLeft_pos.le m.matched_nonneg
          venuePrice_pos.le, fun _ _ => failsOnly_ok _⟩⟩

/-- A step fails with an error, where a sum of the plan overflows, or where the decimals of the pair
are too far apart. -/
theorem failsOnly_step (domain : ∀ e, P (.ofDomain e))
    (words : P (.abort .wordSubtraction) ∧ P (.abort .wordNegation) ∨ u.GapFits)
    (room : ∀ m : Meeting u w, P (.abort .addition) ∨
      w.plan.HasRoom m.matched m.venuePrice m.chainPrice) : FailsOnly P (w.step u) := by
  unfold step
  split
  · next level levels o orders venue chain =>
    refine failsOnly_bind.mpr ⟨failsOnly_liftM domain, fun _ onSide => ?_⟩
    refine failsOnly_bind.mpr ⟨failsOnly_liftM domain, fun chainPrice priced => ?_⟩
    refine failsOnly_bind.mpr ⟨Units.failsOnly_toHumanPrice (domain _) words,
      fun human human_eq => ?_⟩
    let f : Front u w := ⟨level, o, chainPrice, human, by rw [venue]; rfl, by rw [chain]; rfl,
      liftM_eq_ok.mp onSide, liftM_eq_ok.mp priced, human_eq⟩
    split_ifs with crossing venueOut chainOut
    · exact failsOnly_ok _
    · exact failsOnly_ok _
    · have venueLeft_pos := lt_iff_value.mp (not_le_iff_lt.mp venueOut)
      have chainLeft_pos := lt_iff_value.mp (not_le_iff_lt.mp chainOut)
      rw [value_zero] at venueLeft_pos chainLeft_pos
      refine failsOnly_bind.mpr ⟨Units.failsOnly_toChainPrice (domain _) words,
        fun venuePrice scaled => failsOnly_bind.mpr ⟨?_, fun _ _ => failsOnly_ok _⟩⟩
      exact failsOnly_matchFirst (domain _) (f := f) crossing venueLeft_pos chainLeft_pos scaled
        room
    · exact failsOnly_ok _
  · exact failsOnly_ok _

/-! ### Bounded books -/

/-- Each of the sums of the walk is within what its matches so far may have added, and what is left
of both books is within the bounds. -/
structure Within (u : Units) (amount price entries : ℕ) (w : Walk) : Prop where
  base : |w.plan.base.value| ≤ (w.plan.steps.length * amount : ℕ)
  quote : |w.plan.quote.value| ≤ (w.plan.steps.length * (amount * price) : ℕ)
  chainQuote : |w.plan.chainQuote.value| ≤ (w.plan.steps.length * (amount * price) : ℕ)
  left : match w.plan.direction with
    | .chainBid => w.venueLeft.value ≤ amount
    | .venueBid => w.chainLeft.value ≤ amount
  books : w.plan.direction.BoundedBy u amount price w.venue w.chain
  matches_le : w.plan.steps.length + w.unspent ≤ entries

/-- What a level and an order that meet add to the sums is within the bounds. -/
structure Meeting.Bounded (amount price : ℕ) (m : Meeting u w) : Prop where
  one_le : 1 ≤ price
  matched : |m.matched.value| ≤ amount
  proceeds : ∀ d, m.matched.mul? m.venuePrice = some d → |d.value| ≤ (amount * price : ℕ)
  cost : ∀ d, m.matched.mul? m.chainPrice = some d → |d.value| ≤ (amount * price : ℕ)

theorem Within.bounded {entries : ℕ} (h : w.Within u amount price entries) (m : Meeting u w) :
    m.Bounded amount price := by
  have order : m.order ∈ w.chain := by rw [m.chain_eq]; exact List.mem_cons_self
  have level : m.level ∈ w.venue := by rw [m.venue_eq]; exact List.mem_cons_self
  have chainPrice : |m.chainPrice.value| ≤ price := by
    rw [abs_of_pos m.chainPrice_pos, Tick.value_of_price m.price_eq]
    exact h.books.chainPrices m.order order
  have venuePrice : |m.venuePrice.value| ≤ price :=
    (Units.roundsTo_of_toChainPrice m.venuePrice_eq).abs_value_le
      (h.books.venuePrices m.level level)
  have matched : |m.matched.value| ≤ amount := by
    have left := h.left
    rw [abs_of_nonneg m.matched_nonneg, Meeting.matched, value_min]
    rcases m.sides with ⟨side, venueBase, -⟩ | ⟨side, chainBase, -⟩
    · rw [side] at left
      rw [venueBase]
      exact (min_le_left _ _).trans left
    · rw [side] at left
      rw [chainBase]
      exact (min_le_right _ _).trans left
  refine ⟨?_, matched, fun d => abs_mul?_le matched venuePrice,
    fun d => abs_mul?_le matched chainPrice⟩
  have positive := (abs_pos.mpr m.chainPrice_pos.ne').trans_le chainPrice
  exact_mod_cast positive

/-- A sum that has grown by `k` parts has room for another. -/
theorem abs_add_le_of_parts {x y : ℚ} {k part : ℕ} (hx : |x| ≤ (k * part : ℕ)) (hy : |y| ≤ part) :
    |x + y| ≤ ((k + 1) * part : ℕ) := by
  refine (abs_add_le x y).trans ((add_le_add hx hy).trans_eq ?_)
  push_cast
  ring

/-- Where all matches together stay within the decimals, the sums have room for each of them. -/
theorem Within.hasRoom {entries : ℕ} (h : w.Within u amount price entries)
    (fits : (entries - 1) * (amount * price) ≤ maxCoefficient) (m : Meeting u w) :
    w.plan.HasRoom m.matched m.venuePrice m.chainPrice := by
  have bounded := h.bounded m
  -- a level and an order are unspent here, and every match before this one has spent an entry
  have matches_le : w.plan.steps.length + 1 ≤ entries - 1 := by
    have := h.matches_le
    have := m.two_le_unspent
    omega
  have worth : (w.plan.steps.length + 1) * (amount * price) ≤ maxCoefficient :=
    (Nat.mul_le_mul_right _ matches_le).trans fits
  have held : (w.plan.steps.length + 1) * amount ≤ maxCoefficient :=
    (Nat.mul_le_mul_left _ (Nat.le_mul_of_pos_right _ bounded.one_le)).trans worth
  refine ⟨fun proceeds product => exists_add? ?_, exists_add? ?_,
    fun cost product => exists_add? ?_⟩
  · exact (abs_add_le_of_parts h.quote (bounded.proceeds _ product)).trans (by exact_mod_cast worth)
  · exact (abs_add_le_of_parts h.base bounded.matched).trans (by exact_mod_cast held)
  · exact (abs_add_le_of_parts h.chainQuote (bounded.cost _ product)).trans
      (by exact_mod_cast worth)

theorem BoundedBy.tail {d : Direction} {venue : List Venue.Level} {chain : List Chain.Order}
    (h : d.BoundedBy u amount price venue chain) :
    d.BoundedBy u amount price venue.tail chain ∧ d.BoundedBy u amount price venue chain.tail := by
  obtain ⟨amounts, venuePrices, chainPrices⟩ := h
  cases d with
  | chainBid =>
    exact ⟨⟨fun l left => amounts l (List.mem_of_mem_tail left),
      fun l left => venuePrices l (List.mem_of_mem_tail left), chainPrices⟩,
      ⟨amounts, venuePrices, fun o left => chainPrices o (List.mem_of_mem_tail left)⟩⟩
  | venueBid =>
    exact ⟨⟨amounts, fun l left => venuePrices l (List.mem_of_mem_tail left), chainPrices⟩,
      ⟨fun o left => amounts o (List.mem_of_mem_tail left), venuePrices,
        fun o left => chainPrices o (List.mem_of_mem_tail left)⟩⟩

/-- Every step keeps the walk within the bounds. -/
theorem Within.step {entries : ℕ} (h : w.Within u amount price entries)
    (step : Step u w (.more next)) : next.Within u amount price entries := by
  have matches_le := (steps_add_unspent_le step).trans h.matches_le
  cases step with
  | passLevel f crossing exhausted =>
    refine ⟨h.base, h.quote, h.chainQuote, ?_, (BoundedBy.tail h.books).1, matches_le⟩
    have left := h.left
    have amounts := (BoundedBy.tail h.books).1.amounts
    show match w.plan.direction with
      | .chainBid => (firstSize w.venue.tail).value ≤ amount
      | .venueBid => w.chainLeft.value ≤ amount
    cases side : w.plan.direction with
    | chainBid =>
      rw [side] at amounts
      exact firstSize_le (Nat.cast_nonneg _) amounts
    | venueBid =>
      rw [side] at left
      exact left
  | passOrder f crossing exhausted =>
    refine ⟨h.base, h.quote, h.chainQuote, ?_, (BoundedBy.tail h.books).2, matches_le⟩
    have left := h.left
    have amounts := (BoundedBy.tail h.books).2.amounts
    show match w.plan.direction with
      | .chainBid => w.venueLeft.value ≤ amount
      | .venueBid => (firstQuantity w.chain.tail).value ≤ amount
    cases side : w.plan.direction with
    | chainBid =>
      rw [side] at left
      exact left
    | venueBid =>
      rw [side] at amounts
      exact firstQuantity_le (Nat.cast_nonneg _) amounts
  | matching m =>
    have bounded := h.bounded m.meeting
    have direction := direction_of_step (.matching m)
    obtain ⟨quote, base, chainQuote⟩ := amounts_reached w m.order
    have quoteSum := roundsTo_of_add? m.extended.quote_eq
    have baseSum := roundsTo_of_add? m.extended.base_eq
    have chainSum := roundsTo_of_add? m.extended.chainQuote_eq
    rw [quote] at quoteSum
    rw [base] at baseSum
    rw [chainQuote] at chainSum
    refine ⟨?_, ?_, ?_, ?_, ?_, matches_le⟩
    · rw [length_steps_of_match m]
      exact baseSum.abs_value_le (abs_add_le_of_parts h.base bounded.matched)
    · rw [length_steps_of_match m]
      exact quoteSum.abs_value_le
        (abs_add_le_of_parts h.quote (bounded.proceeds _ m.extended.proceeds_eq))
    · rw [length_steps_of_match m]
      exact chainSum.abs_value_le
        (abs_add_le_of_parts h.chainQuote (bounded.cost _ m.extended.cost_eq))
    · -- the side that holds base has less of it than before
      have left := h.left
      rw [direction]
      rcases m.sides with ⟨side, -, -, difference, -⟩ | ⟨side, -, -, difference, -⟩
      · rw [side] at left ⊢
        exact ((roundsTo_of_sub? difference).le (sub_le_self _ m.matched_nonneg)).trans left
      · rw [side] at left ⊢
        exact ((roundsTo_of_sub? difference).le (sub_le_self _ m.matched_nonneg)).trans left
    · rw [direction, m.venue_same, m.chain_same]
      exact h.books

/-- A walk begins within the bounds of its books. -/
theorem within_start {d : Direction} {venue : List Venue.Level} {chain : List Chain.Order}
    (h : d.BoundedBy u amount price venue chain) :
    (start d venue chain).Within u amount price (venue.length + chain.length) := by
  refine ⟨by simp [start, Plan.empty], by simp [start, Plan.empty], by simp [start, Plan.empty], ?_,
    h, ?_⟩
  · have amounts := h.amounts
    cases d with
    | chainBid => exact firstSize_le (Nat.cast_nonneg _) amounts
    | venueBid => exact firstQuantity_le (Nat.cast_nonneg _) amounts
  · exact (Nat.zero_add _).trans_le (unspent_le (start d venue chain))

end Walk

namespace Plan

variable (u : Units) (d : Direction) (venue : List Venue.Level) (chain : List Chain.Order)

/-- Sizing a plan ends with the plan or with an error, whatever the books are, unless a running sum
overflows or the decimals of the pair are too far apart. No sum overflows where one match less than
there are entries, each of them at the bounds of the books, stays within the decimals. -/
theorem size_reports :
    (∃ plan, size u d venue chain = .ok plan) ∨ (∃ e, size u d venue chain = .error (.ofDomain e)) ∨
      (size u d venue chain = .error (.abort .addition) ∧
        ∀ amount price : ℕ, d.BoundedBy u amount price venue chain →
          maxCoefficient < (venue.length + chain.length - 1) * (amount * price)) ∨
      ¬ u.GapFits ∧ (size u d venue chain = .error (.abort .wordSubtraction) ∨
        size u d venue chain = .error (.abort .wordNegation)) := by
  have failures :
      FailsOnly (fun f => (∃ e, f = .ofDomain e) ∨ f = .abort .addition ∨ u.GapFailure f)
        (size u d venue chain) :=
    Walk.failsOnly_run (I := fun _ => True)
      (fun _ => Walk.failsOnly_step (fun e => .inl ⟨e, rfl⟩)
        (Units.gapFailure_or_gapFits fun f h => .inr (.inr h)) fun _ => .inl (.inr (.inl rfl)))
      (fun _ _ => trivial) _ trivial
  cases sized : size u d venue chain with
  | ok plan => exact .inl ⟨plan, rfl⟩
  | error f =>
    refine .inr ?_
    rcases failures f sized with ⟨e, rfl⟩ | rfl | ⟨gap, rfl | rfl⟩
    · exact .inl ⟨e, rfl⟩
    · refine .inr (.inl ⟨rfl, fun amount price bounded => ?_⟩)
      -- within the bounds every sum has room, so none of them would have overflowed
      by_contra fits
      have roomy : FailsOnly (fun f => (∃ e, f = .ofDomain e) ∨ u.GapFailure f)
          (size u d venue chain) :=
        Walk.failsOnly_run (I := Walk.Within u amount price (venue.length + chain.length))
          (fun within => Walk.failsOnly_step (fun e => .inl ⟨e, rfl⟩)
            (Units.gapFailure_or_gapFits fun f h => .inr h)
            fun m => .inr (within.hasRoom (not_lt.mp fits) m))
          (fun within step => within.step step) _ (Walk.within_start bounded)
      rcases roomy _ sized with ⟨e, same⟩ | ⟨-, same | same⟩
      · cases same
      · cases same
      · cases same
    · exact .inr (.inr ⟨gap, .inl rfl⟩)
    · exact .inr (.inr ⟨gap, .inr rfl⟩)

/-- Two levels whose sizes are decimals, but not their sum, meet two orders that are as large. -/
theorem size_overflows :
    Plan.size ⟨6, 6⟩ .chainBid
        [⟨.one, ⟨false, 70000000000000000000000000000, 0, by decide, by decide⟩⟩,
          ⟨.one, ⟨false, 10000000000000000000000000000, 0, by decide, by decide⟩⟩]
        [.fresh 0 1 "bid" "maker" ⟨false, 79000000000000000000000000000, 0, by decide, by decide⟩,
          .fresh 0 2 "bid" "maker" ⟨false, 79000000000000000000000000000, 0, by decide, by decide⟩]
      = .error (.abort .addition) := by
  decide +kernel

end Plan

end CrossBook.Trade
