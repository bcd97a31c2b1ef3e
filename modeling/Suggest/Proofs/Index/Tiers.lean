/-
# The scores of a keyword search

For a word of a query an index looks under the word itself, then under longer words, then inside whole texts, and an entry
keeps the score of the place where it is found first.  What stands inside a text, though, stands inside a word of it, so nothing
is ever left to be found in the third place (`wordMatches_tiers`).  So the entries of a keyword search have the scores that they
were inserted with, or those with the weight of a longer word, and no others.
-/

import Suggest.Proofs.Index.Keyword

namespace Suggest
namespace Index

variable {inserts : List (String × Entry)} {query word : String} {ranking : Ranking}

/-- What is found for a word is what stands under it, and then what stands under longer words. -/
theorem wordMatches_eq_append (hword : word ∈ Text.words query) :
    (ofInserts inserts).wordMatches ranking word = (ofInserts inserts).words.exact word ++
      ((((ofInserts inserts).words.containing word).filter fun e =>
        e.key ∉ ((ofInserts inserts).words.exact word).map Entry.key).eraseDupsBy
          fun e f => e.key = f.key).map fun e => e.scaled Ranking.longerWordWeight := by
  have hexact : Entry.pushAll [] ((ofInserts inserts).words.exact word) = (ofInserts inserts).words.exact word := by
    rw [words_ofInserts]
    exact Entry.pushAll_nil_of_nodup (Postings.nodup_keys_exact_ofAdds _ _)
  rw [wordMatches_ofInserts hword, hexact, Entry.pushAll_eq_append, List.filter_map, ← Entry.pushAll_eq_eraseDupsBy]
  exact congrArg _ (Entry.pushAll_map_scaled [] _ _)

/-- **Looking inside whole texts never gives an entry its score.**  For a word of a query, what is found inside texts has a key
that stands under the word or under a longer one.  So the matches of the word are the entries under it, as they are, and then
those under longer words, each once and with the weight of a longer word; and what a keyword search finds stands under the first
word of the query, or it has that weight and stands under a longer one. -/
theorem wordMatches_tiers (inserts : List (String × Entry)) (query : String) (ranking : Ranking) :
    (∀ word ∈ Text.distinctWords query,
      (∀ weight, ∀ e ∈ (ofInserts inserts).texts.substringHits word ranking weight,
        ∃ f, (f ∈ (ofInserts inserts).words.exact word ∨ f ∈ (ofInserts inserts).words.containing word) ∧ f.key = e.key) ∧
      (ofInserts inserts).wordMatches ranking word = (ofInserts inserts).words.exact word ++
        ((((ofInserts inserts).words.containing word).filter fun e =>
          e.key ∉ ((ofInserts inserts).words.exact word).map Entry.key).eraseDupsBy
            fun e f => e.key = f.key).map fun e => e.scaled Ranking.longerWordWeight) ∧
    ∀ limit found, (ofInserts inserts).keywordSearch? query limit ranking = some found → ∀ e ∈ found,
      ∃ word, (Text.distinctWords query).head? = some word ∧
        (e ∈ (ofInserts inserts).words.exact word ∨
          ∃ f ∈ (ofInserts inserts).words.containing word, e = f.scaled Ranking.longerWordWeight) := by
  refine ⟨fun word hmem => ?_, fun limit found hfound e he => ?_⟩
  · have hword : word ∈ Text.words query := Text.mem_distinctWords.1 hmem
    refine ⟨fun weight e he => ?_, wordMatches_eq_append hword⟩
    have hkey := mem_keys_words_of_mem_substringHits hword he
    obtain ⟨g, hg, hsame⟩ := List.mem_map.1 hkey
    have hmatch : g ∈ (ofInserts inserts).wordMatches ranking word := by rwa [wordMatches_ofInserts hword]
    rcases mem_wordMatches hword hmatch with hg | ⟨f, hf, rfl⟩
    · exact ⟨g, .inl hg, hsame⟩
    · exact ⟨f, .inr hf, hsame⟩
  · rcases Nat.eq_zero_or_pos limit with rfl | hlimit
    · rw [keywordSearch?_zero] at hfound
      cases hfound
      cases he
    · exact exists_word_of_mem_candidates (mem_candidates_of_mem hlimit hfound he)

theorem wordMatches_threeNames :
    (ofInserts threeNames).wordMatches {} "bear" =
        [{ id := "1", text := "old bear", category := "item" },
          Entry.scaled { id := "2", text := "bearded fox", category := "item" } Ranking.longerWordWeight] ∧
      ∃ found, (ofInserts threeNames).keywordSearch? "bear fox" 2 {} = some found ∧ ∀ e ∈ found,
        ∃ word, (Text.distinctWords "bear fox").head? = some word ∧
          (e ∈ (ofInserts threeNames).words.exact word ∨
            ∃ f ∈ (ofInserts threeNames).words.containing word, e = f.scaled Ranking.longerWordWeight) := by
  obtain ⟨hwords, hfound⟩ := wordMatches_tiers threeNames "bear fox" {}
  refine ⟨(hwords "bear" (by decide +kernel)).2.trans (by decide +kernel), ?_⟩
  cases h : (ofInserts threeNames).keywordSearch? "bear fox" 2 {} with
  | none => exact absurd h (by decide +kernel)
  | some found => exact ⟨found, rfl, hfound 2 found h⟩

end Index
end Suggest
