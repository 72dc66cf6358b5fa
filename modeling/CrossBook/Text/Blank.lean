/-!
# White space

The characters with the Unicode property `White_Space`, and texts without them at their ends.

## Main definitions

* `Text.isBlank` — the character has the property
* `Text.trim` — the text from its first to its last character without it
-/

namespace CrossBook.Text

/-- The ranges of the Unicode property `White_Space`, both ends included, in code point order. -/
def blankRanges : List (Nat × Nat) :=
  [(0x9, 0xD), (0x20, 0x20), (0x85, 0x85), (0xA0, 0xA0), (0x1680, 0x1680), (0x2000, 0x200A),
   (0x2028, 0x2029), (0x202F, 0x202F), (0x205F, 0x205F), (0x3000, 0x3000)]

/-- The character has the Unicode property `White_Space`. -/
def isBlank (c : Char) : Bool := blankRanges.any fun r => r.1 ≤ c.toNat && c.toNat ≤ r.2

/-- The characters from the first to the last that is no white space. -/
def trimChars (cs : List Char) : List Char :=
  ((cs.dropWhile isBlank).reverse.dropWhile isBlank).reverse

/-- The text from its first to its last character that is no white space. -/
def trim (s : String) : String := String.ofList (trimChars s.toList)

example : isBlank ' ' ∧ isBlank '\n' ∧ isBlank (Char.ofNat 0x3000) ∧ ¬ isBlank 'x' := by decide

example : trimChars [' ', 'a', ' ', 'b', '\t'] = ['a', ' ', 'b'] := by decide

end CrossBook.Text
