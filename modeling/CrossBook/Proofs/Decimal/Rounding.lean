import CrossBook.Decimal.Arithmetic
import Mathlib.Algebra.Order.Field.Rat
import Mathlib.Tactic.FieldSimp
import Mathlib.Tactic.Linarith
import Mathlib.Tactic.Positivity
import Mathlib.Tactic.Ring

/-!
# Rounding to decimals

A magnitude is rounded at the largest scale at which its whole part still fits the coefficient. The
larger of two magnitudes may be rounded at a smaller scale, and a coefficient that rounds up to
`2 ^ 96` moves down a place; the order of the results survives both.

## Main definitions

* `Decimal.carried` — the coefficient left of `2 ^ 96` a place further down

## Main results

* `Decimal.divHalfEven_mono` — rounded quotients keep the order of quotients
* `Decimal.roundedParts?_mono` — rounded magnitudes keep the order of magnitudes
* `Decimal.roundedParts?_near` — rounded magnitudes are near
* `Decimal.exists_roundedParts?_iff` — a magnitude can be rounded when its nearest whole number fits
* `Decimal.roundedParts?_of_fits` — a magnitude that fits is not changed
* `Decimal.roundedParts?_of_dvd` — neither is a whole one
-/

namespace CrossBook.Decimal

/-! ### Rounded quotients -/

theorem div_le_divHalfEven (n d : Nat) : n / d ≤ divHalfEven n d := by
  unfold divHalfEven
  dsimp only
  split_ifs <;> omega

theorem divHalfEven_le_succ (n d : Nat) : divHalfEven n d ≤ n / d + 1 := by
  unfold divHalfEven
  dsimp only
  split_ifs <;> omega

theorem divHalfEven_of_mod_eq_zero {n d : Nat} (positive : 0 < d) (h : n % d = 0) :
    divHalfEven n d = n / d := by
  simp [divHalfEven, h, positive]

theorem div_le_div_of_mul_le {n d n' d' : Nat} (positive : 0 < d) (positive' : 0 < d')
    (h : n * d' ≤ n' * d) : n / d ≤ n' / d' := by
  rw [Nat.le_div_iff_mul_le positive']
  refine Nat.le_of_mul_le_mul_right (c := d) ?_ positive
  calc n / d * d' * d = n / d * d * d' := Nat.mul_right_comm _ _ _
    _ ≤ n * d' := Nat.mul_le_mul_right _ (Nat.div_mul_le_self _ _)
    _ ≤ n' * d := h

/-- A rounded quotient is at most half a unit away from the quotient. -/
theorem divHalfEven_near {n d : Nat} (positive : 0 < d) :
    2 * (divHalfEven n d * d) ≤ 2 * n + d ∧ 2 * n ≤ 2 * (divHalfEven n d * d) + d := by
  have split := Nat.div_add_mod n d
  have rest := Nat.mod_lt n positive
  rw [Nat.mul_comm] at split
  have up : (n / d + 1) * d = n / d * d + d := Nat.succ_mul _ _
  unfold divHalfEven
  dsimp only
  split_ifs
  · omega
  · omega
  · -- halfway, where the even neighbour is either of the two
    rcases Nat.mod_two_eq_zero_or_one (n / d) with even | odd
    · rw [even, Nat.add_zero]
      omega
    · rw [odd]
      omega

/-- Rounding to the even neighbour keeps the order of quotients. -/
theorem divHalfEven_mono {n d n' d' : Nat} (positive : 0 < d) (positive' : 0 < d')
    (h : n * d' ≤ n' * d) : divHalfEven n d ≤ divHalfEven n' d' := by
  have quotients := div_le_div_of_mul_le positive positive' h
  rcases Nat.lt_or_eq_of_le quotients with less | same
  · have upper := divHalfEven_le_succ n d
    have lower := div_le_divHalfEven n' d'
    omega
  · -- with equal whole parts the remainders compare like the quotients
    have remainders : n % d * d' ≤ n' % d' * d := by
      have left := Nat.div_add_mod n d
      have right := Nat.div_add_mod n' d'
      rw [← left, ← right, ← same] at h
      nlinarith
    have past : d ≤ 2 * (n % d) → d' ≤ 2 * (n' % d') := by
      intro half
      by_contra short
      nlinarith
    have strictlyPast : d < 2 * (n % d) → d' < 2 * (n' % d') := by
      intro half
      by_contra short
      nlinarith
    unfold divHalfEven
    dsimp only
    rw [← same]
    split_ifs <;> omega

/-- A whole number that bounds a quotient bounds what it is rounded to. -/
theorem divHalfEven_le {n d k : Nat} (positive : 0 < d) (h : n ≤ k * d) : divHalfEven n d ≤ k := by
  have whole := divHalfEven_mono positive Nat.one_pos (show n * 1 ≤ k * d by rwa [Nat.mul_one])
  rwa [divHalfEven_of_mod_eq_zero Nat.one_pos (Nat.mod_one _), Nat.div_one] at whole

/-! ### The scale of a magnitude -/

theorem fittingScale?_eq_some {n d s k : Nat} (h : fittingScale? n d k = some s) :
    s ≤ k ∧ n * tenTo s / d ≤ maxCoefficient ∧
      ∀ t, s < t → t ≤ k → maxCoefficient < n * tenTo t / d := by
  induction k with
  | zero =>
    unfold fittingScale? at h
    split_ifs at h with fits
    obtain rfl := Option.some.inj h
    exact ⟨Nat.le_refl 0, by simpa using fits, by omega⟩
  | succ k ih =>
    unfold fittingScale? at h
    split_ifs at h with fits
    · obtain rfl := Option.some.inj h
      exact ⟨Nat.le_refl _, fits, by omega⟩
    · -- a scale that does not fit is passed on the way down to the one that is found
      obtain ⟨le, fit, above⟩ := ih h
      refine ⟨by omega, fit, ?_⟩
      intro t lt le'
      rcases Nat.lt_or_eq_of_le le' with less | rfl
      · exact above t lt (by omega)
      · omega

/-- A scale that fits bounds the scale a magnitude is rounded at from below. -/
theorem exists_fittingScale? {n d t k : Nat} (fits : n * tenTo t / d ≤ maxCoefficient)
    (h : t ≤ k) : ∃ s, fittingScale? n d k = some s ∧ t ≤ s := by
  induction k with
  | zero =>
    obtain rfl : t = 0 := by omega
    exact ⟨0, by unfold fittingScale?; rw [if_pos (by simpa using fits)], Nat.le_refl 0⟩
  | succ k ih =>
    unfold fittingScale?
    split_ifs with more
    · exact ⟨k + 1, rfl, h⟩
    · apply ih
      rcases Nat.lt_or_eq_of_le h with less | rfl
      · omega
      · exact absurd fits more

/-! ### Rounded magnitudes -/

/-- What `2 ^ 96` is rounded to with a place less. -/
def carried : Nat := divHalfEven (maxCoefficient + 1) 10

theorem maxCoefficient_lt_ten_mul_carried : maxCoefficient < 10 * carried := by decide

theorem carried_le : carried ≤ maxCoefficient := by decide

/-- The two ways to round at a scale that fits: the coefficient stays in range, or it reaches
`2 ^ 96` and loses a place. -/
theorem roundedAt?_eq_some {n d t m s : Nat} (fits : n * tenTo t / d ≤ maxCoefficient)
    (h : roundedAt? n d t = some (m, s)) :
    m = divHalfEven (n * tenTo t) d ∧ s = t ∧ m ≤ maxCoefficient ∨
      maxCoefficient < divHalfEven (n * tenTo t) d ∧ t = s + 1 ∧ m = carried := by
  rw [roundedAt?.eq_def] at h
  dsimp only at h
  split_ifs at h with inRange
  · obtain ⟨rfl, rfl⟩ := Prod.mk.inj (Option.some.inj h)
    exact .inl ⟨rfl, rfl, inRange⟩
  · -- rounding adds one at most, so a coefficient out of range is `2 ^ 96` itself
    have past := Nat.lt_of_not_le inRange
    have reached : divHalfEven (n * tenTo t) d = maxCoefficient + 1 :=
      Nat.le_antisymm ((divHalfEven_le_succ _ _).trans (Nat.succ_le_succ fits)) past
    cases t with
    | zero => cases h
    | succ t =>
      obtain ⟨rfl, rfl⟩ := Prod.mk.inj (Option.some.inj h)
      exact .inr ⟨past, rfl, by rw [reached, carried]⟩

theorem roundedParts?_eq_some {n d m s : Nat} (h : roundedParts? n d = some (m, s)) :
    ∃ t, fittingScale? n d maxScale = some t ∧
      (m = divHalfEven (n * tenTo t) d ∧ s = t ∧ m ≤ maxCoefficient ∨
        maxCoefficient < divHalfEven (n * tenTo t) d ∧ t = s + 1 ∧ m = carried) := by
  rw [roundedParts?] at h
  obtain ⟨t, found, h⟩ := Option.bind_eq_some_iff.mp h
  exact ⟨t, found, roundedAt?_eq_some (fittingScale?_eq_some found).2.1 h⟩

theorem roundedParts?_inRange {n d m s : Nat} (h : roundedParts? n d = some (m, s)) :
    m ≤ maxCoefficient ∧ s ≤ maxScale := by
  obtain ⟨t, found, ⟨-, rfl, le⟩ | ⟨-, rfl, rfl⟩⟩ := roundedParts?_eq_some h
  · exact ⟨le, (fittingScale?_eq_some found).1⟩
  · have := (fittingScale?_eq_some found).1
    exact ⟨carried_le, by omega⟩

/-- A larger magnitude is not rounded at a larger scale. -/
theorem fittingScale?_anti {n d n' d' t t' k : Nat} (positive : 0 < d) (positive' : 0 < d')
    (h : n * d' ≤ n' * d) (found : fittingScale? n d k = some t)
    (found' : fittingScale? n' d' k = some t') : t' ≤ t := by
  -- where the smaller magnitude does not fit, neither does the larger one
  by_contra less
  obtain ⟨le', fits', -⟩ := fittingScale?_eq_some found'
  have above := (fittingScale?_eq_some found).2.2 t' (by omega) le'
  have scaled : n * tenTo t' / d ≤ n' * tenTo t' / d' := by
    refine div_le_div_of_mul_le positive positive' ?_
    rw [Nat.mul_right_comm, Nat.mul_right_comm n']
    exact Nat.mul_le_mul_right _ h
  omega

private theorem roundedParts?_le_carried {n d m s t t' : Nat}
    (h : roundedParts? n d = some (m, s)) (found : fittingScale? n d maxScale = some t)
    (less : t' < t) : m * tenTo t' ≤ carried * tenTo s := by
  obtain ⟨u, found', ⟨-, rfl, le⟩ | ⟨-, rfl, rfl⟩⟩ := roundedParts?_eq_some h
  all_goals obtain rfl := Option.some.inj (found.symm.trans found')
  · -- a coefficient in range is below ten times the carried one, and at least a place is to spare
    have bound := maxCoefficient_lt_ten_mul_carried
    have powers : tenTo (t' + 1) ≤ tenTo t := Nat.pow_le_pow_right (by decide) (by omega)
    rw [tenTo_succ] at powers
    calc m * tenTo t' ≤ 10 * carried * tenTo t' := Nat.mul_le_mul_right _ (by omega)
      _ = carried * (tenTo t' * 10) := by ring
      _ ≤ carried * tenTo t := Nat.mul_le_mul_left _ powers
  · exact Nat.mul_le_mul_left _ (Nat.pow_le_pow_right (by decide) (by omega))

/-- Where one place more would not fit, the coefficient is as long as coefficients get. -/
theorem carried_le_divHalfEven {n d t : Nat} (positive : 0 < d)
    (found : fittingScale? n d maxScale = some t) (less : t < maxScale) :
    carried ≤ divHalfEven (n * tenTo t) d := by
  have above := (fittingScale?_eq_some found).2.2 (t + 1) (by omega) (by omega)
  refine divHalfEven_mono (by decide) positive ?_
  have := (Nat.le_div_iff_mul_le positive).mp above
  rw [tenTo_succ] at this
  calc (maxCoefficient + 1) * d ≤ n * (tenTo t * 10) := this
    _ = n * tenTo t * 10 := by ring

private theorem carried_le_roundedParts? {n d m s t k : Nat} (positive : 0 < d)
    (h : roundedParts? n d = some (m, s)) (found : fittingScale? n d maxScale = some t)
    (less : t < k) (le : k ≤ maxScale) : carried * tenTo s ≤ m * tenTo t := by
  have raw := carried_le_divHalfEven positive found (by omega)
  obtain ⟨u, found', ⟨rfl, rfl, -⟩ | ⟨-, rfl, rfl⟩⟩ := roundedParts?_eq_some h
  all_goals obtain rfl := Option.some.inj (found.symm.trans found')
  · exact Nat.mul_le_mul_right _ raw
  · exact Nat.mul_le_mul_left _ (Nat.pow_le_pow_right (by decide) (by omega))

/-- Rounding magnitudes keeps their order. -/
theorem roundedParts?_mono {n d n' d' m s m' s' : Nat} (positive : 0 < d) (positive' : 0 < d')
    (le : n * d' ≤ n' * d) (h : roundedParts? n d = some (m, s))
    (h' : roundedParts? n' d' = some (m', s')) : m * tenTo s' ≤ m' * tenTo s := by
  obtain ⟨t, found, cases_⟩ := roundedParts?_eq_some h
  obtain ⟨t', found', cases'⟩ := roundedParts?_eq_some h'
  rcases Nat.lt_or_eq_of_le (fittingScale?_anti positive positive' le found found') with less | rfl
  · -- different scales: both sides compare with the least coefficient a place further up
    have upper := roundedParts?_le_carried h found less
    have lower := carried_le_roundedParts? positive' h' found' less (fittingScale?_eq_some found).1
    refine Nat.le_of_mul_le_mul_right (c := tenTo t') ?_ (tenTo_pos _)
    calc m * tenTo s' * tenTo t' = m * tenTo t' * tenTo s' := Nat.mul_right_comm _ _ _
      _ ≤ carried * tenTo s * tenTo s' := Nat.mul_le_mul_right _ upper
      _ = carried * tenTo s' * tenTo s := Nat.mul_right_comm _ _ _
      _ ≤ m' * tenTo t' * tenTo s := Nat.mul_le_mul_right _ lower
      _ = m' * tenTo s * tenTo t' := Nat.mul_right_comm _ _ _
  · -- one scale: the raw coefficients compare, and each of them may have carried
    have scaled : divHalfEven (n * tenTo t') d ≤ divHalfEven (n' * tenTo t') d' := by
      refine divHalfEven_mono positive positive' ?_
      rw [Nat.mul_right_comm, Nat.mul_right_comm n']
      exact Nat.mul_le_mul_right _ le
    rcases cases_ with ⟨rfl, rfl, inRange⟩ | ⟨carry, rfl, rfl⟩ <;>
      rcases cases' with ⟨rfl, same, inRange'⟩ | ⟨carry', same, rfl⟩
    · subst same
      exact Nat.mul_le_mul_right _ scaled
    · -- only the larger one has carried
      have bound := maxCoefficient_lt_ten_mul_carried
      subst same
      calc _ ≤ 10 * carried * tenTo s' := Nat.mul_le_mul_right _ (inRange.trans bound.le)
        _ = carried * (tenTo s' * 10) := by ring
    · omega
    · obtain rfl : s = s' := by omega
      exact Nat.le_refl _

/-- A rounded magnitude is at most half a unit of its last place away, and that place is the last
one there is unless the coefficient is long. -/
theorem roundedParts?_near {n d m s : Nat} (positive : 0 < d)
    (h : roundedParts? n d = some (m, s)) :
    2 * (m * d) ≤ 2 * (n * tenTo s) + d ∧ 2 * (n * tenTo s) ≤ 2 * (m * d) + d ∧
      (s = maxScale ∨ tenTo maxScale ≤ 2 * m) := by
  have long : tenTo maxScale ≤ 2 * carried := by decide
  obtain ⟨t, found, ⟨rfl, rfl, -⟩ | ⟨past, rfl, rfl⟩⟩ := roundedParts?_eq_some h
  · obtain ⟨above, below⟩ := divHalfEven_near (n := n * tenTo s) positive
    refine ⟨above, below, ?_⟩
    rcases Nat.lt_or_eq_of_le (fittingScale?_eq_some found).1 with less | last
    · have := carried_le_divHalfEven positive found less
      exact .inr (by omega)
    · exact .inl last
  · -- what is carried is rounded twice, but a place less makes up for that
    have reached : divHalfEven (n * tenTo (s + 1)) d = maxCoefficient + 1 :=
      Nat.le_antisymm ((divHalfEven_le_succ _ _).trans
        (Nat.succ_le_succ (fittingScale?_eq_some found).2.1)) past
    obtain ⟨above, below⟩ := divHalfEven_near (n := n * tenTo (s + 1)) positive
    have twice : 10 * carried = maxCoefficient + 1 + 4 := by decide
    have place : n * tenTo (s + 1) = 10 * (n * tenTo s) := by rw [tenTo_succ]; ring
    have apart : 10 * (carried * d) = (maxCoefficient + 1) * d + 4 * d := by
      rw [← Nat.mul_assoc, twice, Nat.add_mul]
    rw [reached, place] at above below
    exact ⟨by omega, by omega, .inr long⟩

/-- A magnitude can be rounded exactly when its nearest whole number fits the coefficient. -/
theorem exists_roundedParts?_iff {n d : Nat} (positive : 0 < d) :
    (∃ parts, roundedParts? n d = some parts) ↔ divHalfEven n d ≤ maxCoefficient := by
  constructor
  · rintro ⟨⟨m, s⟩, parts⟩
    obtain ⟨t, found, ⟨rfl, rfl, inRange⟩ | ⟨-, rfl, -⟩⟩ := roundedParts?_eq_some parts
    · refine (divHalfEven_mono positive positive ?_).trans inRange
      exact Nat.mul_le_mul_right d (Nat.le_mul_of_pos_right n (tenTo_pos s))
    · -- a place is to spare, so the whole part is well in range
      have fits := Nat.lt_succ_of_le (fittingScale?_eq_some found).2.1
      rw [Nat.div_lt_iff_lt_mul positive, tenTo_succ] at fits
      have place : n * 10 ≤ n * (tenTo s * 10) :=
        Nat.mul_le_mul_left n (Nat.le_mul_of_pos_left 10 (tenTo_pos s))
      apply divHalfEven_le positive
      unfold maxCoefficient at fits ⊢
      omega
  · intro fits
    have whole : n * tenTo 0 / d ≤ maxCoefficient := by
      rw [tenTo_zero, Nat.mul_one]
      exact (div_le_divHalfEven n d).trans fits
    obtain ⟨t, found, -⟩ := exists_fittingScale? whole (Nat.zero_le maxScale)
    rw [roundedParts?, found, Option.bind_some, roundedAt?.eq_def]
    cases t with
    | zero => exact ⟨_, if_pos (by rwa [tenTo_zero, Nat.mul_one])⟩
    | succ t =>
      dsimp only
      split_ifs <;> exact ⟨_, rfl⟩

/-- A magnitude that is no larger than the largest coefficient can be rounded. -/
theorem exists_roundedParts? {n d : Nat} (positive : 0 < d) (small : n ≤ maxCoefficient * d) :
    ∃ parts, roundedParts? n d = some parts := by
  rw [exists_roundedParts?_iff positive]
  exact divHalfEven_le positive small

private theorem roundedParts?_of_mul_eq {n d m s t k : Nat} (positive : 0 < d)
    (whole : d ∣ n * tenTo k) (h : roundedParts? n d = some (m, s))
    (found : fittingScale? n d maxScale = some t) (le : k ≤ t) : m * d = n * tenTo s := by
  have dvd : d ∣ n * tenTo t := by
    refine whole.trans (Nat.mul_dvd_mul_left n ?_)
    exact Nat.pow_dvd_pow 10 le
  have rounded := divHalfEven_of_mod_eq_zero positive (Nat.mod_eq_zero_of_dvd dvd)
  obtain ⟨u, found', ⟨rfl, rfl, -⟩ | ⟨carry, -, -⟩⟩ := roundedParts?_eq_some h
  all_goals obtain rfl := Option.some.inj (found.symm.trans found')
  · rw [rounded, Nat.div_mul_cancel dvd]
  · -- without a remainder nothing is added, so nothing is carried
    have fits := (fittingScale?_eq_some found).2.1
    omega

/-- A magnitude with a coefficient and a scale in range is kept as it is. -/
theorem roundedParts?_of_fits {n d c k : Nat} (positive : 0 < d) (scale_le : k ≤ maxScale)
    (coefficient_le : c ≤ maxCoefficient) (same : n * tenTo k = c * d) :
    ∃ m s, roundedParts? n d = some (m, s) ∧ m * d = n * tenTo s := by
  have fits : n * tenTo k / d ≤ maxCoefficient := by rwa [same, Nat.mul_div_cancel _ positive]
  obtain ⟨t, found, le⟩ := exists_fittingScale? fits scale_le
  have dvd : d ∣ n * tenTo t :=
    (Dvd.intro_left c same.symm).trans (Nat.mul_dvd_mul_left n (Nat.pow_dvd_pow 10 le))
  have inRange : divHalfEven (n * tenTo t) d ≤ maxCoefficient := by
    rw [divHalfEven_of_mod_eq_zero positive (Nat.mod_eq_zero_of_dvd dvd)]
    exact (fittingScale?_eq_some found).2.1
  have parts : roundedParts? n d = some (divHalfEven (n * tenTo t) d, t) := by
    rw [roundedParts?, found, Option.bind_some, roundedAt?.eq_def]
    exact if_pos inRange
  exact ⟨_, _, parts, roundedParts?_of_mul_eq positive (Dvd.intro_left c same.symm) parts found le⟩

/-- A whole magnitude is kept as it is. -/
theorem roundedParts?_of_dvd {n d m s : Nat} (positive : 0 < d) (whole : d ∣ n)
    (h : roundedParts? n d = some (m, s)) : m * d = n * tenTo s := by
  obtain ⟨t, found, -⟩ := roundedParts?_eq_some h
  exact roundedParts?_of_mul_eq (k := 0) positive (by simpa using whole) h found (Nat.zero_le t)

end CrossBook.Decimal
