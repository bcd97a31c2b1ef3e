/-
# What a keyword search finds

The words of a text stand in it, and a word that stands in a text stands in one of the text's words.  So for a word of a query
the words of an index and its texts agree on the keys: they are those with a text that the word stands in
(`mem_keys_wordMatches`), and looking inside whole texts finds no other (`wordMatches_ofInserts`).

| | |
| --- | --- |
| `answers` | the keys for which each word of the query stands in some text |
| `candidates` | what a keyword search finds before it sorts and cuts |

The candidates have the keys that answer the query, each once (`mem_keys_candidates`, `nodup_keys_candidates`).
-/

import Mathlib.Data.Finset.Card
import Mathlib.Data.Finset.Filter
import Mathlib.Data.Finset.Dedup
import Suggest.Proofs.Entry
import Suggest.Proofs.Index.Postings
import Suggest.Proofs.Scores
import Suggest.Proofs.Text.Occurrences

namespace Suggest
namespace Postings

theorem mem_containing {p : Postings} {word : String} {e : Entry} :
    e ∈ p.containing word ↔ ∃ key, key ≠ word ∧ Text.contains key word = true ∧ e ∈ p.exact key := by
  rw [containing, List.mem_flatMap]
  constructor
  · rintro ⟨⟨key, entries⟩, hmem, he⟩
    dsimp only at he
    split at he
    · next h => exact ⟨key, h.1, h.2, by rwa [exact_of_mem_toList hmem]⟩
    · cases he
  · rintro ⟨key, hne, hcontains, he⟩
    refine ⟨(key, p.exact key), mem_toList_of_mem_exact he, ?_⟩
    dsimp only
    rw [if_pos ⟨hne, hcontains⟩]
    exact he

theorem mem_substringHits {p : Postings} {needle : String} (hne : needle.isEmpty = false) {ranking : Ranking}
    {weight : Single} {e : Entry} :
    e ∈ p.substringHits needle ranking weight ↔ ∃ key offset f, Text.charOffset? key needle = some offset ∧
      f ∈ p.exact key ∧ e = f.scaled ((ranking.positionFactor offset key.length).mul weight) := by
  rw [substringHits, if_neg (by simp [hne]), List.mem_flatMap]
  constructor
  · rintro ⟨⟨key, entries⟩, hmem, he⟩
    dsimp only [hitsUnder] at he
    split at he
    · next offset hoffset =>
      obtain ⟨f, hf, rfl⟩ := List.mem_map.1 he
      exact ⟨key, offset, f, hoffset, by rwa [exact_of_mem_toList hmem], rfl⟩
    · cases he
  · rintro ⟨key, offset, f, hoffset, hf, rfl⟩
    refine ⟨(key, p.exact key), mem_toList_of_mem_exact hf, ?_⟩
    dsimp only [hitsUnder]
    rw [hoffset]
    exact List.mem_map_of_mem hf

end Postings

namespace Index

variable {inserts : List (String × Entry)} {query word : String} {ranking : Ranking} {k : Entry.Key}

/-- An entry stands under the words of the texts that it was inserted under. -/
theorem mem_words_exact {e : Entry} (h : e ∈ (ofInserts inserts).words.exact word) :
    ∃ text, (text, e) ∈ inserts ∧ word ∈ Text.words text := by
  rw [words_ofInserts] at h
  obtain ⟨⟨text, e'⟩, hx, h⟩ := List.mem_flatMap.1 (Postings.mem_exact_ofAdds h)
  obtain ⟨other, hother, heq⟩ := List.mem_map.1 h
  cases heq
  exact ⟨text, hx, Text.mem_distinctWords.1 hother⟩

theorem mem_keys_words_exact :
    k ∈ ((ofInserts inserts).words.exact word).map Entry.key ↔ ∃ x ∈ inserts, x.2.key = k ∧ word ∈ Text.words x.1 := by
  rw [words_ofInserts, Postings.mem_keys_exact_ofAdds]
  constructor
  · rintro ⟨e, he, rfl⟩
    obtain ⟨x, hx, he⟩ := List.mem_flatMap.1 he
    obtain ⟨other, hother, heq⟩ := List.mem_map.1 he
    cases heq
    exact ⟨x, hx, rfl, Text.mem_distinctWords.1 hother⟩
  · rintro ⟨x, hx, rfl, hword⟩
    exact ⟨x.2, List.mem_flatMap.2 ⟨x, hx, List.mem_map_of_mem (Text.mem_distinctWords.2 hword)⟩, rfl⟩

/-- The entries under a word, and with a lower weight those under longer words. -/
theorem mem_keys_words (hword : word ∈ Text.words query) :
    k ∈ (Entry.pushAll (Entry.pushAll [] ((ofInserts inserts).words.exact word))
        (((ofInserts inserts).words.containing word).map fun e => e.scaled Ranking.longerWordWeight)).map Entry.key ↔
      ∃ x ∈ inserts, x.2.key = k ∧ word.toList <:+: (Text.lower x.1).toList := by
  rw [Entry.mem_keys_pushAll, Entry.mem_keys_pushAll, mem_keys_words_exact, List.map_map]
  constructor
  · rintro ((h | ⟨x, hx, hk, hword⟩) | h)
    · cases h
    · exact ⟨x, hx, hk, Text.infix_of_mem_words hword⟩
    · obtain ⟨e, he, rfl⟩ := List.mem_map.1 h
      obtain ⟨longer, -, hcontains, he⟩ := Postings.mem_containing.1 he
      obtain ⟨text, hx, hlonger⟩ := mem_words_exact he
      exact ⟨_, hx, rfl, (Text.contains_iff.1 hcontains).trans (Text.infix_of_mem_words hlonger)⟩
  · rintro ⟨x, hx, rfl, hinfix⟩
    obtain ⟨longer, hlonger, hinfix⟩ := Text.exists_word_of_infix hword hinfix
    by_cases heq : longer = word
    · subst heq
      exact .inl (.inr ⟨x, hx, rfl, hlonger⟩)
    · obtain ⟨e, he, hk⟩ := List.mem_map.1 (mem_keys_words_exact.2 ⟨x, hx, rfl, hlonger⟩)
      refine .inr (List.mem_map.2 ⟨e, Postings.mem_containing.2 ⟨longer, heq, ?_, he⟩, hk⟩)
      exact Text.contains_iff.2 hinfix

/-- What is found inside whole texts has a key that stands under the word or under a longer one. -/
theorem mem_keys_words_of_mem_substringHits (hword : word ∈ Text.words query) {weight : Single} {e : Entry}
    (he : e ∈ (ofInserts inserts).texts.substringHits word ranking weight) :
    e.key ∈ (Entry.pushAll (Entry.pushAll [] ((ofInserts inserts).words.exact word))
      (((ofInserts inserts).words.containing word).map fun e => e.scaled Ranking.longerWordWeight)).map Entry.key := by
  rw [mem_keys_words hword]
  obtain ⟨key, offset, f, hoffset, hf, rfl⟩ :=
    (Postings.mem_substringHits (Text.ne_empty_of_mem_words hword)).1 he
  obtain ⟨text, hx, rfl⟩ := mem_texts_exact hf
  refine ⟨_, hx, rfl, Text.charOffset?_isSome_iff.1 ?_⟩
  rw [hoffset]
  rfl

/-- **Looking inside whole texts adds nothing** to what is found for a word of a query. -/
theorem wordMatches_ofInserts (hword : word ∈ Text.words query) :
    (ofInserts inserts).wordMatches ranking word =
      Entry.pushAll (Entry.pushAll [] ((ofInserts inserts).words.exact word))
        (((ofInserts inserts).words.containing word).map fun e => e.scaled Ranking.longerWordWeight) :=
  Entry.pushAll_of_subset fun _ he => mem_keys_words_of_mem_substringHits hword he

/-- What matches a word stands under it, or with less weight under a longer one. -/
theorem mem_wordMatches (hword : word ∈ Text.words query) {e : Entry} (he : e ∈ (ofInserts inserts).wordMatches ranking word) :
    e ∈ (ofInserts inserts).words.exact word ∨
      ∃ f ∈ (ofInserts inserts).words.containing word, e = f.scaled Ranking.longerWordWeight := by
  rw [wordMatches_ofInserts hword] at he
  rcases Entry.mem_of_mem_pushAll he with he | he
  · exact .inl ((Entry.mem_of_mem_pushAll he).resolve_left List.not_mem_nil)
  · obtain ⟨f, hf, rfl⟩ := List.mem_map.1 he
    exact .inr ⟨f, hf, rfl⟩

/-- **For a word of a query the keys are found that have a text in which the word stands.** -/
theorem mem_keys_wordMatches (hword : word ∈ Text.words query) :
    k ∈ ((ofInserts inserts).wordMatches ranking word).map Entry.key ↔
      ∃ x ∈ inserts, x.2.key = k ∧ word.toList <:+: (Text.lower x.1).toList := by
  rw [wordMatches_ofInserts hword]
  exact mem_keys_words hword

/-- Narrowing keeps the entries that every further word finds. -/
theorem narrow_eq_filter (i : Index) (ranking : Ranking) (entries : List Entry) (rest : List String) :
    i.narrow ranking entries rest =
      entries.filter fun e => rest.all fun word => Entry.occurs e.key (i.wordMatches ranking word) := by
  induction rest generalizing entries with
  | nil => simp [narrow]
  | cons word rest ih =>
    rw [narrow]
    split
    · next hempty =>
      rw [List.isEmpty_iff.1 hempty]
      rfl
    · simp only [ih, List.filter_filter, List.all_cons]
      congr 1
      funext e
      exact Bool.and_comm _ _

/-- What a keyword search finds before it sorts and cuts. -/
def candidates (i : Index) (ranking : Ranking) (query : String) : List Entry :=
  match Text.distinctWords query with
  | [] => []
  | word :: rest => i.narrow ranking (i.wordMatches ranking word) rest

theorem keywordSearch?_zero (i : Index) (query : String) (ranking : Ranking) :
    i.keywordSearch? query 0 ranking = some [] := by
  rw [keywordSearch?]
  split
  · rfl
  · exact if_pos rfl

theorem keywordSearch?_eq (i : Index) (query : String) {limit : Nat} (hlimit : limit ≠ 0) (ranking : Ranking) :
    i.keywordSearch? query limit ranking =
      (Entry.sortByScore? (i.candidates ranking query)).map (·.take limit) := by
  rw [keywordSearch?, candidates]
  cases Text.distinctWords query with
  | nil =>
    rw [Entry.sortByScore?_of_numbers (by simp)]
    simp [Entry.sortByScore, stableSort, insertAll]
  | cons word rest => exact if_neg hlimit

/-- What is found is among the candidates. -/
theorem mem_candidates_of_mem {i : Index} {limit : Nat} (hlimit : 1 ≤ limit) {found : List Entry}
    (h : i.keywordSearch? query limit ranking = some found) {e : Entry} (he : e ∈ found) :
    e ∈ i.candidates ranking query := by
  rw [keywordSearch?_eq _ _ (by omega)] at h
  obtain ⟨sorted, hsorted, rfl⟩ := Option.map_eq_some_iff.1 h
  exact (Entry.perm_sortByScore? hsorted).mem_iff.1 (List.mem_of_mem_take he)

/-- Whether entries with the key answer a query: it has words, and each of them stands in a text that an entry with the key
was inserted under. -/
def Answers (inserts : List (String × Entry)) (query : String) (k : Entry.Key) : Prop :=
  Text.words query ≠ [] ∧
    ∀ word ∈ Text.words query, ∃ x ∈ inserts, x.2.key = k ∧ word.toList <:+: (Text.lower x.1).toList

instance (inserts : List (String × Entry)) (query : String) : DecidablePred (Answers inserts query) :=
  fun _ => inferInstanceAs (Decidable (_ ∧ _))

/-- The keys that answer a query. -/
def answers (inserts : List (String × Entry)) (query : String) : Finset Entry.Key :=
  (inserts.map fun x => x.2.key).toFinset.filter (Answers inserts query)

theorem mem_answers : k ∈ answers inserts query ↔ Answers inserts query k := by
  rw [answers, Finset.mem_filter, List.mem_toFinset, and_iff_right_iff_imp]
  rintro ⟨hne, hall⟩
  obtain ⟨word, hword⟩ := List.exists_mem_of_ne_nil _ hne
  obtain ⟨x, hx, rfl, -⟩ := hall word hword
  exact List.mem_map_of_mem hx

/-- **The candidates have the keys that answer the query.** -/
theorem mem_keys_candidates (ranking : Ranking) :
    k ∈ ((ofInserts inserts).candidates ranking query).map Entry.key ↔ k ∈ answers inserts query := by
  rw [mem_answers, Answers, candidates]
  have hwords : ∀ {word}, word ∈ Text.words query ↔ word ∈ Text.distinctWords query := Text.mem_distinctWords.symm
  cases hdistinct : Text.distinctWords query with
  | nil =>
    have hnil : Text.words query = [] := List.eq_nil_iff_forall_not_mem.2 fun word hword => by
      rw [hwords, hdistinct] at hword
      cases hword
    simp [hnil]
  | cons first rest =>
    rw [hdistinct] at hwords
    have hne : Text.words query ≠ [] := List.ne_nil_of_mem (hwords.2 List.mem_cons_self)
    have hfinds : ∀ word ∈ first :: rest, ∀ k, k ∈ ((ofInserts inserts).wordMatches ranking word).map Entry.key ↔
        ∃ x ∈ inserts, x.2.key = k ∧ word.toList <:+: (Text.lower x.1).toList :=
      fun word hword k => mem_keys_wordMatches (hwords.2 hword)
    simp only [narrow_eq_filter, hwords, List.forall_mem_cons]
    rw [← hfinds first List.mem_cons_self]
    simp only [List.mem_map, List.mem_filter, List.all_eq_true, Entry.occurs_iff]
    constructor
    · rintro ⟨e, ⟨he, hrest⟩, rfl⟩
      refine ⟨hne, ⟨e, he, rfl⟩, fun word hword => ?_⟩
      exact (hfinds word (List.mem_cons_of_mem first hword) _).1 (List.mem_map.2 (hrest word hword))
    · rintro ⟨-, ⟨e, he, rfl⟩, hrest⟩
      refine ⟨e, ⟨he, fun word hword => ?_⟩, rfl⟩
      exact List.mem_map.1 ((hfinds word (List.mem_cons_of_mem first hword) _).2 (hrest word hword))

/-- No two candidates have one key. -/
theorem nodup_keys_candidates (i : Index) (ranking : Ranking) (query : String) :
    ((i.candidates ranking query).map Entry.key).Nodup := by
  rw [candidates]
  split
  · exact List.nodup_nil
  · rw [narrow_eq_filter, wordMatches]
    refine List.Nodup.sublist (List.filter_sublist.map _) (Entry.nodup_pushAll (Entry.nodup_pushAll ?_ _) _)
    exact @Entry.nodup_pushAll [] List.nodup_nil _

/-- **There are as many candidates as keys that answer the query.** -/
theorem length_candidates (ranking : Ranking) :
    ((ofInserts inserts).candidates ranking query).length = (answers inserts query).card := by
  have hkeys : (((ofInserts inserts).candidates ranking query).map Entry.key).toFinset = answers inserts query := by
    ext k
    rw [List.mem_toFinset, mem_keys_candidates]
  rw [← hkeys, List.toFinset_card_of_nodup (nodup_keys_candidates _ _ _), List.length_map]

/-- A candidate stands under the first word of the query, or with less weight under a longer word. -/
theorem exists_word_of_mem_candidates {e : Entry} (h : e ∈ (ofInserts inserts).candidates ranking query) :
    ∃ word, (Text.distinctWords query).head? = some word ∧
      (e ∈ (ofInserts inserts).words.exact word ∨
        ∃ f ∈ (ofInserts inserts).words.containing word, e = f.scaled Ranking.longerWordWeight) := by
  rw [candidates] at h
  split at h
  · cases h
  · next word rest hdistinct =>
    rw [narrow_eq_filter] at h
    have hword : word ∈ Text.words query := Text.mem_distinctWords.1 (hdistinct ▸ List.mem_cons_self)
    exact ⟨word, by rw [hdistinct]; rfl, mem_wordMatches hword (List.mem_filter.1 h).1⟩

/-- A candidate is an inserted entry, with its score or with the weight of a longer word. -/
theorem exists_of_mem_candidates {e : Entry} (h : e ∈ (ofInserts inserts).candidates ranking query) :
    ∃ text f, (text, f) ∈ inserts ∧ (e = f ∨ e = f.scaled Ranking.longerWordWeight) := by
  obtain ⟨word, -, h | ⟨f, hf, rfl⟩⟩ := exists_word_of_mem_candidates h
  · obtain ⟨text, hx, -⟩ := mem_words_exact h
    exact ⟨text, e, hx, .inl rfl⟩
  · obtain ⟨longer, -, -, hf⟩ := Postings.mem_containing.1 hf
    obtain ⟨text, hx, -⟩ := mem_words_exact hf
    exact ⟨text, f, hx, .inr rfl⟩

/-- If the scores of the inserted entries are numbers, so are those of the candidates. -/
theorem score_candidates_ne_nan (h : ∀ x ∈ inserts, x.2.score ≠ .nan) :
    ∀ e ∈ (ofInserts inserts).candidates ranking query, e.score ≠ .nan := by
  intro e he
  obtain ⟨text, f, hx, rfl | rfl⟩ := exists_of_mem_candidates he
  · exact h _ hx
  · exact Ranking.isFactor_longerWordWeight.mul_right_ne_nan (h _ hx)

/-- Without an answer there are many candidates, and the score of an inserted entry is no number. -/
theorem exists_nan_of_keywordSearch?_eq_none {limit : Nat} (hlimit : 1 ≤ limit)
    (h : (ofInserts inserts).keywordSearch? query limit ranking = none) :
    20 < (answers inserts query).card ∧ ∃ x ∈ inserts, x.2.score = .nan := by
  rw [keywordSearch?_eq _ _ (by omega), Option.map_eq_none_iff] at h
  obtain ⟨hlong, e, he, hnan⟩ := Entry.exists_nan_of_sortByScore?_eq_none h
  refine ⟨by rwa [length_candidates] at hlong, ?_⟩
  by_contra hnumbers
  push Not at hnumbers
  exact score_candidates_ne_nan hnumbers e he hnan

/-- What a keyword search promises of the entries that it finds. -/
structure KeywordAnswer (inserts : List (String × Entry)) (query : String) (limit : Nat) (ranking : Ranking)
    (found : List Entry) : Prop where
  length : found.length = min limit (answers inserts query).card
  distinct : (found.map Entry.key).Nodup
  sound : ∀ e ∈ found, e.key ∈ answers inserts query
  falling : (∀ e ∈ (ofInserts inserts).candidates ranking query, e.score ≠ .nan) →
    found.Pairwise fun a b => a.score.less b.score = false

theorem keywordAnswer {limit : Nat} (hlimit : 1 ≤ limit) {found : List Entry}
    (h : (ofInserts inserts).keywordSearch? query limit ranking = some found) :
    KeywordAnswer inserts query limit ranking found := by
  have hcandidates := fun e he => mem_candidates_of_mem (e := e) hlimit h he
  rw [keywordSearch?_eq _ _ (by omega)] at h
  obtain ⟨sorted, hsorted, rfl⟩ := Option.map_eq_some_iff.1 h
  have hperm := Entry.perm_sortByScore? hsorted
  have hsublist : (sorted.take limit).Sublist sorted := List.take_sublist limit sorted
  refine ⟨?_, ?_, fun e he => ?_, fun hnumbers => ?_⟩
  · rw [List.length_take, hperm.length_eq, length_candidates]
  · refine List.Nodup.sublist (hsublist.map _) ((hperm.map Entry.key).nodup_iff.2 ?_)
    exact nodup_keys_candidates _ _ _
  · rw [← mem_keys_candidates ranking]
    exact List.mem_map_of_mem (hcandidates e he)
  · rw [Entry.sortByScore?_of_numbers hnumbers] at hsorted
    cases hsorted
    exact (Entry.pairwise_sortByScore hnumbers).sublist hsublist

/-- If there are no more keys than the limit, all of them are found. -/
theorem KeywordAnswer.mem_keys_iff {limit : Nat} {found : List Entry}
    (h : KeywordAnswer inserts query limit ranking found) (hlimit : (answers inserts query).card ≤ limit) :
    k ∈ found.map Entry.key ↔ k ∈ answers inserts query := by
  have hsubset : (found.map Entry.key).toFinset ⊆ answers inserts query := fun k hk => by
    obtain ⟨e, he, rfl⟩ := List.mem_map.1 (List.mem_toFinset.1 hk)
    exact h.sound e he
  have hcard : (answers inserts query).card ≤ (found.map Entry.key).toFinset.card := by
    rw [List.toFinset_card_of_nodup h.distinct, List.length_map, h.length, min_eq_right hlimit]
  rw [← Finset.eq_of_subset_of_card_le hsubset hcard, List.mem_toFinset]

/-- The two names of one record, and another record with both words in one name. -/
def threeNames : List (String × Entry) :=
  [("red fox", { id := "1", text := "red fox", category := "item" }),
    ("old bear", { id := "1", text := "old bear", category := "item" }),
    ("bearded fox", { id := "2", text := "bearded fox", category := "item" })]

end Index
end Suggest
