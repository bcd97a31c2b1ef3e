/-
# Words inside texts

A text contains a word if the word's characters stand in it one behind the other (`contains_iff`).  The words of a text stand
in it like that (`infix_of_mem_words`), and what consists of word characters and stands in a text stands in one of its words
if it is long enough to be a word (`exists_word_of_infix`).
-/

import Mathlib.Data.List.Infix
import Suggest.Proofs.Text.Lower
import Suggest.Text.Occurrence

namespace Suggest
namespace Text

theorem offset?_isSome_iff {needle cs : List Char} : (offset? needle cs).isSome = true ↔ needle <:+: cs := by
  induction cs with
  | nil =>
    rw [offset?, List.infix_nil]
    cases needle <;> simp
  | cons c rest ih =>
    rw [offset?, List.infix_cons_iff]
    split
    · next h => simp [List.isPrefixOf_iff_prefix.1 h]
    · next h =>
      rw [List.isPrefixOf_iff_prefix] at h
      simp [h, ih]

/-- **A text contains another exactly if the other's characters stand in it one behind the other.** -/
theorem contains_iff {haystack needle : String} :
    contains haystack needle = true ↔ needle.toList <:+: haystack.toList := offset?_isSome_iff

/-- The first piece goes up to the first character outside the class. -/
theorem exists_pieces_eq_cons (p : Char → Bool) (cs : List Char) : ∃ more, pieces p cs = cs.takeWhile p :: more := by
  induction cs with
  | nil => exact ⟨[], rfl⟩
  | cons c rest ih =>
    obtain ⟨more, hmore⟩ := ih
    rw [pieces, List.takeWhile_cons, hmore]
    split
    · exact ⟨more, rfl⟩
    · exact ⟨_, rfl⟩

/-- The pieces stand in the characters. -/
theorem infix_of_mem_pieces {p : Char → Bool} {cs piece : List Char} (h : piece ∈ pieces p cs) : piece <:+: cs := by
  induction cs generalizing piece with
  | nil =>
    rw [pieces, List.mem_singleton] at h
    rw [h]
  | cons c rest ih =>
    obtain ⟨more, hmore⟩ := exists_pieces_eq_cons p rest
    rw [pieces, hmore] at h
    rw [hmore] at ih
    split at h
    · next hc =>
      rcases List.mem_cons.1 h with rfl | h
      · exact ((List.prefix_cons_inj c).2 (List.takeWhile_prefix p)).isInfix
      · exact (ih (by simp [h])).trans (List.infix_cons (List.infix_refl rest))
    · rcases List.mem_cons.1 h with rfl | h
      · exact List.nil_infix
      · exact (ih h).trans (List.infix_cons (List.infix_refl rest))

theorem prefix_takeWhile {p : Char → Bool} {needle cs : List Char} (hp : ∀ c ∈ needle, p c = true) (h : needle <+: cs) :
    needle <+: cs.takeWhile p := by
  obtain ⟨rest, rfl⟩ := h
  rw [List.takeWhile_append_of_pos hp]
  exact List.prefix_append needle _

/-- **What is made of characters of the class and stands in the characters stands in one of the pieces.** -/
theorem exists_piece_of_infix {p : Char → Bool} {needle cs : List Char} (hp : ∀ c ∈ needle, p c = true)
    (h : needle <:+: cs) : ∃ piece ∈ pieces p cs, needle <:+: piece := by
  induction cs with
  | nil => exact ⟨[], by simp [pieces], h⟩
  | cons c rest ih =>
    rcases List.infix_cons_iff.1 h with h | h
    · obtain ⟨more, hmore⟩ := exists_pieces_eq_cons p (c :: rest)
      exact ⟨_, by rw [hmore]; exact List.mem_cons_self, (prefix_takeWhile hp h).isInfix⟩
    · -- the piece is one of the rest, or goes on from one of them
      obtain ⟨piece, hpiece, hneedle⟩ := ih h
      obtain ⟨more, hmore⟩ := exists_pieces_eq_cons p rest
      rw [hmore] at hpiece
      rw [pieces, hmore]
      split
      · rcases List.mem_cons.1 hpiece with rfl | hpiece
        · exact ⟨_, List.mem_cons_self, hneedle.trans (List.infix_cons (List.infix_refl _))⟩
        · exact ⟨piece, List.mem_cons_of_mem _ hpiece, hneedle⟩
      · exact ⟨piece, List.mem_cons_of_mem _ hpiece, hneedle⟩

theorem mem_words_iff {text word : String} :
    word ∈ words text ↔ word.toList ∈ pieces isWordChar (lower text).toList ∧ minWordLength ≤ word.toList.length := by
  rw [words, runs, toList_lower]
  simp only [List.mem_map, List.mem_filter, decide_eq_true_eq, Bool.not_eq_true', List.isEmpty_eq_false_iff]
  constructor
  · rintro ⟨run, ⟨⟨hrun, -⟩, hlength⟩, rfl⟩
    rw [String.toList_ofList]
    exact ⟨hrun, hlength⟩
  · rintro ⟨hrun, hlength⟩
    have hne : word.toList ≠ [] := List.ne_nil_of_length_pos (Nat.lt_of_lt_of_le (by decide) hlength)
    exact ⟨word.toList, ⟨⟨hrun, hne⟩, hlength⟩, String.ofList_toList⟩

theorem ne_empty_of_mem_words {text word : String} (h : word ∈ words text) : word.isEmpty = false := by
  rw [← Bool.not_eq_true, String.isEmpty_iff]
  rintro rfl
  exact absurd (mem_words_iff.1 h).2 (by decide)

/-- **The words of a text stand in its lower case.** -/
theorem infix_of_mem_words {text word : String} (h : word ∈ words text) : word.toList <:+: (lower text).toList :=
  infix_of_mem_pieces (mem_words_iff.1 h).1

/-- **A word that stands in the lower case of a text stands in one of the text's words.** -/
theorem exists_word_of_infix {query text word : String} (hword : word ∈ words query)
    (h : word.toList <:+: (lower text).toList) : ∃ longer ∈ words text, word.toList <:+: longer.toList := by
  obtain ⟨piece, hpiece, hinfix⟩ := exists_piece_of_infix (fun c hc => isWordChar_of_mem_words hword hc) h
  refine ⟨String.ofList piece, mem_words_iff.2 ?_, by rwa [String.toList_ofList]⟩
  rw [String.toList_ofList]
  exact ⟨hpiece, Nat.le_trans (mem_words_iff.1 hword).2 hinfix.length_le⟩

theorem mem_distinctWords {text word : String} : word ∈ distinctWords text ↔ word ∈ words text :=
  List.mem_eraseDups

end Text
end Suggest
