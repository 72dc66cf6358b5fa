/-!
# Powers of ten and of two

Decimals count in powers of ten, words and binary numbers in powers of two.

## Main definitions

* `tenTo`, `twoTo` — the powers
-/

namespace CrossBook

/-- A power of ten. -/
def tenTo (k : Nat) : Nat := Nat.pow 10 k

/-- A power of two. -/
def twoTo (k : Nat) : Nat := Nat.pow 2 k

@[simp] theorem tenTo_zero : tenTo 0 = 1 := rfl

theorem tenTo_succ (k : Nat) : tenTo (k + 1) = tenTo k * 10 := rfl

theorem tenTo_pos (k : Nat) : 0 < tenTo k := Nat.pow_pos (by decide)

theorem twoTo_pos (k : Nat) : 0 < twoTo k := Nat.pow_pos (by decide)

end CrossBook
