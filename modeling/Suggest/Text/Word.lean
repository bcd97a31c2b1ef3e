/-
# Words

The words of a text are the maximal runs of word characters of its lower case, in order of position, as far as they
have at least two characters.

| function | meaning |
| --- | --- |
| `runs` | the maximal runs of a class of characters |
| `words` | the words of a text, repetitions kept |
| `distinctWords` | the words of a text, each at its first place |
-/

import Suggest.Text.Case
import Suggest.Text.WordTable

namespace Suggest
namespace Text

/-- The fewest characters that a word has. -/
def minWordLength : Nat := 2

/-- Whether words are made of the character. -/
def isWordChar (c : Char) : Bool := wordCharacters.contains c

/-- The pieces between the characters outside the class, empty ones included. -/
def pieces (p : Char → Bool) : List Char → List (List Char)
  | [] => [[]]
  | c :: rest =>
    if p c then
      match pieces p rest with
      | [] => [[c]]
      | piece :: more => (c :: piece) :: more
    else [] :: pieces p rest

/-- The maximal runs of characters of the class, in order. -/
def runs (p : Char → Bool) (cs : List Char) : List (List Char) := (pieces p cs).filter (!·.isEmpty)

/-- The words of a text in order of position. -/
def words (text : String) : List String :=
  ((runs isWordChar (lowerChars text.toList)).filter (minWordLength ≤ ·.length)).map String.ofList

/-- The words of a text, each at its first place only. -/
def distinctWords (text : String) : List String := (words text).eraseDups

/-- A piece is made of characters of the class. -/
theorem all_of_mem_pieces {p : Char → Bool} {cs piece : List Char} (h : piece ∈ pieces p cs) : piece.all p := by
  induction cs generalizing piece with
  | nil => simp_all [pieces]
  | cons c rest ih =>
    rw [pieces] at h
    split at h
    · split at h <;> simp_all
      rcases h with rfl | h
      · simp_all
      · exact ih.2 _ h
    · rcases List.mem_cons.1 h with rfl | h
      · simp
      · exact ih h

end Text
end Suggest
