/-
# Occurrences of a text in another

A text is looked for byte by byte, and the place where it is found is counted in characters: they are those that the bytes in
front of it are read as. The empty text occurs at once.

| function | counts |
| --- | --- |
| `byteOffset?` | the bytes in front of the first occurrence |
| `charOffset?` | the characters in front of it |
-/

import Suggest.Text.Utf8

namespace Suggest
namespace Text

section Offset

variable {α : Type} [BEq α]

/-- How much stands before the first occurrence of `needle`. -/
def offset? (needle : List α) : List α → Option Nat
  | [] => if needle.isEmpty then some 0 else none
  | c :: rest => if needle.isPrefixOf (c :: rest) then some 0 else (offset? needle rest).map (· + 1)

/-- Whether `needle` occurs in the list. -/
def occursIn (needle cs : List α) : Bool := (offset? needle cs).isSome

end Offset

/-- The number of bytes of `haystack` before the first occurrence of `needle`. -/
def byteOffset? (haystack needle : String) : Option Nat := offset? (bytes needle) (bytes haystack)

/-- The number of characters of `haystack` before the first occurrence of `needle`. -/
def charOffset? (haystack needle : String) : Option Nat :=
  (byteOffset? haystack needle).map fun place => (glyphs ((bytes haystack).take place)).length

/-- Whether `needle` occurs in `haystack`. -/
def contains (haystack needle : String) : Bool := occursIn needle.toList haystack.toList

end Text
end Suggest
