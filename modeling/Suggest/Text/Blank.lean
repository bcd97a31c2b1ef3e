/-
# White space

The characters with the Unicode property `White_Space`, and texts without them at their ends.
-/

import Suggest.Text.CharSet

namespace Suggest
namespace Text

/-- The characters with the property `White_Space`. -/
def blankCharacters : CharSet where
  ranges := [
    (0x9, 0xD), (0x20, 0x20), (0x85, 0x85), (0xA0, 0xA0), (0x1680, 0x1680), (0x2000, 0x200A), (0x2028, 0x2029),
    (0x202F, 0x202F), (0x205F, 0x205F), (0x3000, 0x3000)]

/-- Whether the character is white space. -/
def isBlank (c : Char) : Bool := blankCharacters.contains c

/-- The characters between the white space at both ends. -/
def trimChars (cs : List Char) : List Char := ((cs.dropWhile isBlank).reverse.dropWhile isBlank).reverse

/-- The text without the white space at both ends. -/
def trim (text : String) : String := String.ofList (trimChars text.toList)

/-- Core's own white space is among them. -/
theorem isBlank_of_isWhitespace {c : Char} (h : c.isWhitespace = true) : isBlank c = true := by
  simp only [Char.isWhitespace, Bool.or_eq_true, decide_eq_true_eq] at h
  rcases h with ((rfl | rfl) | rfl) | rfl <;> decide

end Text
end Suggest
