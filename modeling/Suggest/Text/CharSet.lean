/-
# Sets of characters as code point ranges

A set of characters is the ascending list of the closed ranges of code points it covers. Looking a character up stops
at the first range that starts behind it.
-/

namespace Suggest
namespace Text

/-- A set of characters: closed code point ranges `(first, last)` in ascending order. -/
structure CharSet where
  ranges : List (Nat × Nat)

namespace CharSet

/-- Whether `n` lies in one of the ascending `ranges`. -/
def covers (n : Nat) : List (Nat × Nat) → Bool
  | [] => false
  | (first, last) :: rest => first ≤ n && (n ≤ last || covers n rest)

/-- Whether the character belongs to the set. -/
def contains (s : CharSet) (c : Char) : Bool := covers c.toNat s.ranges

end CharSet

end Text
end Suggest
