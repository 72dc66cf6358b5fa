import CrossBook.Proofs.Trade.Exactness

/-!
# What a match loses

A match adds to the base of the plan what it takes from a level and from an order, both measured in
base, but for rounding. A step that does not round loses nothing. Any other loses a share of the
amounts that is small, unless a bid is worth so little that a rounded unit of quote buys much base.

## Main definitions

* `Trade.levelWidth` — the base of an amount of what a level holds, at its computed price
* `Trade.Walk.Match.Near` — how much a match may lose
* `Trade.Walk.Limited` — bounds of what is left of both books
* `Trade.matchSlack` — as much as a match may lose within the bounds

## Main results

* `Trade.Walk.Match.near_of_exact` — a step that does not round loses nothing
* `Trade.Walk.Limited.near` — a step within bounds loses no more than its slack
-/

namespace CrossBook.Trade

open Decimal

/-- The chain price of a level as it is computed; a level without one counts as worthless. -/
def computedPrice (u : Units) (l : Venue.Level) : ℚ :=
  ((u.toChainPrice l.price).toOption.map value).getD 0

theorem computedPrice_of_ok {u : Units} {l : Venue.Level} {p : Decimal}
    (h : u.toChainPrice l.price = .ok p) : computedPrice u l = p.value := by
  rw [computedPrice, h]
  rfl

/-- The base of an amount of what a level holds, at its computed price. -/
def levelWidth (u : Units) (d : Direction) (amount : ℚ) (l : Venue.Level) : ℚ :=
  depth d.venueSide amount (computedPrice u l)

/-! ### What rounding loses -/

section Amounts

variable {base base' matched left left' ofBase price : Decimal}

/-- What is taken from an amount of base goes to the sum. -/
theorem ask_near (base_nonneg : 0 ≤ base.value) (matched_nonneg : 0 ≤ matched.value)
    (le : matched.value ≤ left.value) (sum : base.add? matched = some base')
    (difference : left.sub? matched = some left') (p : ℚ) :
    |base'.value + depth .ask left'.value p - (base.value + depth .ask left.value p)| ≤
      slack base'.value + slack left'.value := by
  have rest_nonneg := sub_nonneg.mpr le
  have left'_nonneg := (roundsTo_of_sub? difference).nonneg rest_nonneg
  obtain ⟨above, below⟩ := (roundsTo_of_add? sum).near (add_nonneg base_nonneg matched_nonneg)
  obtain ⟨above', below'⟩ := (roundsTo_of_sub? difference).near rest_nonneg
  rw [depth, depth, max_eq_right left'_nonneg, max_eq_right (matched_nonneg.trans le), abs_le]
  exact ⟨by linarith, by linarith⟩

/-- What is left of an amount of quote. -/
theorem quoteLeft_le (left_nonneg : 0 ≤ left.value) (matched_nonneg : 0 ≤ matched.value)
    (price_pos : 0 < price.value) (h : Walk.quoteLeft left ofBase matched price = .ok left') :
    left'.value ≤ left.value := by
  obtain ⟨-, rfl⟩ | ⟨-, taken, product, difference⟩ := Walk.quoteLeft_cases h
  · rwa [value_zero]
  · have taken_nonneg := (roundsTo_of_mul? product).nonneg
      (mul_nonneg matched_nonneg price_pos.le)
    exact (roundsTo_of_sub? difference).le (sub_le_self _ taken_nonneg)

/-- What is left of an amount of quote is what the match is not worth. -/
theorem quoteLeft_near (left_pos : 0 < left.value) (price_pos : 0 < price.value)
    (matched_nonneg : 0 ≤ matched.value) (quotient : left.div? price = some ofBase)
    (le : matched.value ≤ ofBase.value)
    (h : Walk.quoteLeft left ofBase matched price = .ok left') :
    |max 0 left'.value - (left.value - matched.value * price.value)| ≤
      (3 * price.value + (3 + 5 * left.value)) / 10 ^ 28 := by
  obtain ⟨above, below⟩ :=
    (roundsTo_of_div? quotient).near (div_pos left_pos price_pos).le
  -- the quotient in quote again
  have above := mul_le_mul_of_nonneg_right above price_pos.le
  have below := mul_le_mul_of_nonneg_right below price_pos.le
  have share : slack ofBase.value * price.value =
      (price.value + ofBase.value * price.value) / 10 ^ 28 := by rw [slack]; ring
  rw [add_mul, div_mul_cancel₀ _ price_pos.ne', share] at above below
  have worth_le := mul_le_mul_of_nonneg_right le price_pos.le
  have worth_nonneg := mul_nonneg matched_nonneg price_pos.le
  obtain ⟨all, rfl⟩ | ⟨-, taken, product, difference⟩ := Walk.quoteLeft_cases h
  · -- all of it is matched, as much as the quotient was rounded to
    rw [value_zero, max_self, all, abs_le]
    exact ⟨by linarith, by linarith⟩
  · obtain ⟨taken_le, le_taken⟩ := (roundsTo_of_mul? product).near worth_nonneg
    unfold slack at taken_le le_taken
    rcases lt_or_ge left.value taken.value with short | enough
    · -- rounding took more than there was
      have none := (roundsTo_of_sub? difference).le (d := zero)
        (by rw [value_zero]; linarith)
      rw [value_zero] at none
      rw [max_eq_left none, abs_le]
      exact ⟨by linarith, by linarith⟩
    · -- the product and the difference were rounded
      have rest_nonneg := sub_nonneg.mpr enough
      have rounds := roundsTo_of_sub? difference
      have left'_le := rounds.le (sub_le_self _
        ((roundsTo_of_mul? product).nonneg worth_nonneg))
      obtain ⟨left_le, le_left⟩ := rounds.near rest_nonneg
      unfold slack at left_le le_left
      rw [max_eq_right (rounds.nonneg rest_nonneg), abs_le]
      exact ⟨by linarith, by linarith⟩

/-- What is taken from an amount of quote goes to the sum as base. -/
theorem bid_near (base_nonneg : 0 ≤ base.value) (left_pos : 0 < left.value)
    (price_pos : 0 < price.value) (matched_nonneg : 0 ≤ matched.value)
    (quotient : left.div? price = some ofBase) (le : matched.value ≤ ofBase.value)
    (sum : base.add? matched = some base')
    (h : Walk.quoteLeft left ofBase matched price = .ok left') :
    |base'.value + depth .bid left'.value price.value -
        (base.value + depth .bid left.value price.value)| ≤
      slack base'.value + (3 + (3 + 5 * left.value) / price.value) / 10 ^ 28 := by
  obtain ⟨above, below⟩ := (roundsTo_of_add? sum).near (add_nonneg base_nonneg matched_nonneg)
  have rest := quoteLeft_near left_pos price_pos matched_nonneg quotient le h
  -- in base, both sides are divided by the price
  have inBase : |depth .bid left'.value price.value -
      (depth .bid left.value price.value - matched.value)| ≤
      (3 + (3 + 5 * left.value) / price.value) / 10 ^ 28 := by
    refine le_of_mul_le_mul_right ?_ price_pos
    rw [← abs_of_pos price_pos, ← abs_mul, abs_of_pos price_pos, sub_mul, sub_mul,
      depth_bid_mul price_pos, depth_bid_mul price_pos, max_eq_right left_pos.le]
    refine rest.trans_eq ?_
    field_simp
  rw [abs_le] at inBase ⊢
  exact ⟨by linarith, by linarith⟩

end Amounts

/-- As much as a match may lose, with a base and amounts up to these and bids not below that. -/
def matchSlack (base amount least : ℚ) : ℚ := (1 + base + amount) * (1 + 1 / least) / 10 ^ 27

theorem matchSlack_nonneg {base amount least : ℚ} (base_nonneg : 0 ≤ base)
    (amount_nonneg : 0 ≤ amount) (least_pos : 0 < least) : 0 ≤ matchSlack base amount least := by
  unfold matchSlack
  positivity

theorem slack_add_slack_le {x y base amount least : ℚ} (base_nonneg : 0 ≤ base)
    (amount_nonneg : 0 ≤ amount) (least_pos : 0 < least) (hx : x ≤ base) (hy : y ≤ amount) :
    slack x + slack y ≤ matchSlack base amount least := by
  have share : 0 ≤ (1 + base + amount) * (1 / least) := by positivity
  unfold slack matchSlack
  rw [mul_add, mul_one]
  linarith

theorem slack_add_share_le {x y p base amount least : ℚ} (base_nonneg : 0 ≤ base)
    (amount_nonneg : 0 ≤ amount) (least_pos : 0 < least) (hx : x ≤ base) (hy : y ≤ amount)
    (hp : least ≤ p) :
    slack x + (3 + (3 + 5 * y) / p) / 10 ^ 28 ≤ matchSlack base amount least := by
  have inverse : 1 / p ≤ 1 / least := one_div_le_one_div_of_le least_pos hp
  have share : (3 + 5 * y) / p ≤ (3 + 5 * amount) * (1 / least) := by
    rw [div_eq_mul_one_div]
    have p_pos := least_pos.trans_le hp
    calc (3 + 5 * y) * (1 / p) ≤ (3 + 5 * amount) * (1 / p) := by gcongr
      _ ≤ (3 + 5 * amount) * (1 / least) := by gcongr
  have rest : 0 ≤ base * (1 / least) := by positivity
  have inverse_nonneg : 0 ≤ 1 / least := by positivity
  have part : 0 ≤ amount * (1 / least) := by positivity
  unfold slack matchSlack
  rw [show (1 + base + amount) * (1 + 1 / least) =
    1 + base + amount + 1 / least + base * (1 / least) + amount * (1 / least) by ring]
  rw [show (3 + 5 * amount) * (1 / least) = 3 * (1 / least) + 5 * (amount * (1 / least)) by ring]
    at share
  linarith

/-- The sizes and quantities of both books are up to an amount, and no bid is below a price. -/
structure Direction.LimitedBy (d : Direction) (u : Units) (amount : ℚ) (least : Decimal)
    (venue : List Venue.Level) (chain : List Chain.Order) : Prop where
  sizes : ∀ l ∈ venue, l.size.value ≤ amount
  quantities : ∀ o ∈ chain, o.quantity.value ≤ amount
  bids : match d with
    | .chainBid => ∀ o ∈ chain, least.value ≤ Tick.exactPrice o.tick
    | .venueBid => ∀ l ∈ venue, least.value ≤ levelPrice u l

namespace Walk

variable {u : Units} {w next : Walk} {ε amount base : ℚ} {least : Decimal}

/-! ### One match -/

/-- A match takes from its level and from its order what it adds to the base, but for an error. -/
structure Match.Near (ε : ℚ) (m : Match u w next) : Prop where
  level : |next.plan.base.value + levelWidth u w.plan.direction next.venueLeft.value m.level -
    (w.plan.base.value + levelWidth u w.plan.direction w.venueLeft.value m.level)| ≤ ε
  order : |next.plan.base.value + orderDepth w.plan.direction next.chainLeft.value m.order -
    (w.plan.base.value + orderDepth w.plan.direction w.chainLeft.value m.order)| ≤ ε

theorem Match.levelWidth_eq (m : Match u w next) (d : Direction) (amount : ℚ) :
    levelWidth u d amount m.level = depth d.venueSide amount m.venuePrice.value := by
  rw [levelWidth, computedPrice_of_ok m.venuePrice_eq]

/-- A match that does not round loses nothing. -/
theorem Match.near_of_exact (m : Match u w next) (exact : ∀ o ∈ w.operations u, o.IsExact) :
    m.Near 0 := by
  have price := (m.matching_exact exact).1
  have exact := m.exact exact
  constructor
  · rw [m.levelWidth_eq, m.levelWidth_eq, price]
    have left := exact.level_left
    unfold levelDepth at left
    rw [left, exact.base]
    exact (abs_eq_zero.mpr (by ring)).le
  · rw [exact.order_left, exact.base]
    exact (abs_eq_zero.mpr (by ring)).le

/-- What is left of both books is within bounds. -/
structure Limited (u : Units) (amount : ℚ) (least : Decimal) (w : Walk) : Prop where
  venueLeft_le : w.venueLeft.value ≤ amount
  chainLeft_le : w.chainLeft.value ≤ amount
  books : w.plan.direction.LimitedBy u amount least w.venue w.chain

theorem Match.sum_eq (m : Match u w next) :
    w.plan.base.add? m.matched = some next.plan.base := by
  rw [← (amounts_reached w m.order).2.1]
  exact m.extended.base_eq

/-- Within bounds, a match loses no more than its slack. -/
theorem Limited.near (h : w.Limited u amount least) (least_pos : 0 < least.value)
    (m : Match u w next) (base_nonneg : 0 ≤ w.plan.base.value)
    (base_le : next.plan.base.value ≤ base) : m.Near (matchSlack base amount least.value) := by
  have matched_nonneg := m.matched_nonneg
  have amount_nonneg := m.venueLeft_pos.le.trans h.venueLeft_le
  have bound_nonneg : 0 ≤ base :=
    (base_nonneg.trans m.base_le).trans base_le
  have le_venueBase : m.matched.value ≤ m.venueBase.value :=
    m.matched_value.trans_le (min_le_left _ _)
  have le_chainBase : m.matched.value ≤ m.chainBase.value :=
    m.matched_value.trans_le (min_le_right _ _)
  have bids := h.books.bids
  rcases m.sides with ⟨side, venueBase, quotient, difference, rest⟩ |
    ⟨side, chainBase, quotient, difference, rest⟩
  · -- the level holds base, and the order quote
    rw [side] at bids
    rw [venueBase] at le_venueBase
    have price_pos := m.chainPrice_pos
    have least_le : least.value ≤ m.chainPrice.value := by
      rw [Tick.value_of_price m.price_eq]
      exact bids m.order (by rw [m.chain_eq]; exact List.mem_cons_self)
    have left_le := ((roundsTo_of_sub? difference).le (sub_le_self _ matched_nonneg)).trans
      h.venueLeft_le
    constructor
    · rw [side]
      exact (ask_near base_nonneg matched_nonneg le_venueBase m.sum_eq difference _).trans
        (slack_add_slack_le bound_nonneg amount_nonneg least_pos base_le left_le)
    · rw [side, orderDepth_chainBid, orderDepth_chainBid, ← Tick.value_of_price m.price_eq]
      exact (bid_near base_nonneg m.chainLeft_pos price_pos matched_nonneg quotient le_chainBase
        m.sum_eq rest).trans (slack_add_share_le bound_nonneg amount_nonneg least_pos base_le
          h.chainLeft_le least_le)
  · -- the level holds quote, and the order base
    rw [side] at bids
    rw [chainBase] at le_chainBase
    have least_le : least.value ≤ m.venuePrice.value :=
      (Units.roundsTo_of_toChainPrice m.venuePrice_eq).ge
        (bids m.level (by rw [m.venue_eq]; exact List.mem_cons_self))
    have price_pos := least_pos.trans_le least_le
    have left_le := ((roundsTo_of_sub? difference).le (sub_le_self _ matched_nonneg)).trans
      h.chainLeft_le
    constructor
    · rw [m.levelWidth_eq, m.levelWidth_eq, side]
      exact (bid_near base_nonneg m.venueLeft_pos price_pos matched_nonneg quotient le_venueBase
        m.sum_eq rest).trans (slack_add_share_le bound_nonneg amount_nonneg least_pos base_le
          h.venueLeft_le least_le)
    · rw [side]
      exact (ask_near base_nonneg matched_nonneg le_chainBase m.sum_eq difference _).trans
        (slack_add_slack_le bound_nonneg amount_nonneg least_pos base_le left_le)

/-! ### All matches -/

theorem limitedBy_tail {d : Direction} {venue : List Venue.Level} {chain : List Chain.Order}
    (h : d.LimitedBy u amount least venue chain) :
    d.LimitedBy u amount least venue.tail chain ∧ d.LimitedBy u amount least venue chain.tail := by
  obtain ⟨sizes, quantities, bids⟩ := h
  cases d with
  | chainBid =>
    exact ⟨⟨fun l left => sizes l (List.mem_of_mem_tail left), quantities, bids⟩,
      ⟨sizes, fun o left => quantities o (List.mem_of_mem_tail left),
        fun o left => bids o (List.mem_of_mem_tail left)⟩⟩
  | venueBid =>
    exact ⟨⟨fun l left => sizes l (List.mem_of_mem_tail left), quantities,
        fun l left => bids l (List.mem_of_mem_tail left)⟩,
      ⟨sizes, fun o left => quantities o (List.mem_of_mem_tail left), bids⟩⟩

theorem limited_start {d : Direction} {venue : List Venue.Level} {chain : List Chain.Order}
    (amount_nonneg : 0 ≤ amount) (h : d.LimitedBy u amount least venue chain) :
    (start d venue chain).Limited u amount least :=
  ⟨firstSize_le amount_nonneg h.sizes, firstQuantity_le amount_nonneg h.quantities, h⟩

/-- Every step keeps what is left within the bounds. -/
theorem Limited.step (h : w.Limited u amount least) (amount_nonneg : 0 ≤ amount)
    (step : Step u w (.more next)) : next.Limited u amount least := by
  cases step with
  | passLevel f crossing exhausted =>
    exact ⟨firstSize_le amount_nonneg (limitedBy_tail h.books).1.sizes, h.chainLeft_le,
      (limitedBy_tail h.books).1⟩
  | passOrder f crossing exhausted =>
    exact ⟨h.venueLeft_le, firstQuantity_le amount_nonneg (limitedBy_tail h.books).2.quantities,
      (limitedBy_tail h.books).2⟩
  | matching m =>
    have matched_nonneg := m.matched_nonneg
    have books : next.plan.direction.LimitedBy u amount least next.venue next.chain := by
      rw [direction_of_step (.matching m), m.venue_same, m.chain_same]
      exact h.books
    rcases m.sides with ⟨-, -, -, difference, rest⟩ | ⟨side, -, quotient, difference, rest⟩
    · exact ⟨((roundsTo_of_sub? difference).le (sub_le_self _ matched_nonneg)).trans h.venueLeft_le,
        (quoteLeft_le m.chainLeft_pos.le matched_nonneg m.chainPrice_pos rest).trans
          h.chainLeft_le, books⟩
    · have price_pos := m.venuePrice_pos side (value_ne_zero_of_div? quotient)
      exact ⟨(quoteLeft_le m.venueLeft_pos.le matched_nonneg price_pos rest).trans h.venueLeft_le,
        ((roundsTo_of_sub? difference).le (sub_le_self _ matched_nonneg)).trans h.chainLeft_le,
        books⟩

end Walk

end CrossBook.Trade
