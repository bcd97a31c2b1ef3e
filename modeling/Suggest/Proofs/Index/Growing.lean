/-
# What a higher limit adds

A limit cuts a list that does not depend on it.  A search by prefix takes its entries from all that stand below the prefix, if
their scores are one (`Trie.search?_eq_take`).  What is found inside texts has no higher score than these, if the slope of the
ranking is not negative, so it is sorted behind them, and whether it was looked for makes no difference to the entries before
(`Index.Fresh.prefixOrSubstringSearch?_eq_take`).  A search by words sorts all candidates before it cuts them
(`Index.Fresh.keywordSearch?_eq_take`).

Of both lists no more counts for a hybrid search than there is room for, so it is a cut as well
(`Index.Fresh.hybridSearch?_eq_take`).
-/

import Suggest.Proofs.Index.Hybrid
import Suggest.Proofs.Index.Prefix
import Suggest.Proofs.Scores.AtMostOne

namespace Suggest

theorem Entry.not_higher_of_atMostOne {e f : Entry} (he : e.score.AtMostOne) (hf : f.score = .one) : e.higher f = false := by
  rw [higher, hf]
  exact he

theorem Entry.not_higher_of_one {e f : Entry} (he : e.score = .one) (hf : f.score = .one) : e.higher f = false :=
  not_higher_of_atMostOne (he ▸ Binary.atMostOne_one) hf

namespace Trie

/-- The entries below a prefix, which a search meets if there is never enough. -/
def allBelow (t : Trie) (start : String) : List Entry :=
  if start.isEmpty then []
  else match t.find? start with
    | some place => (t.visit t.nodes.size [place]).flatMap fun p => (t.node p).entries
    | none => []

/-- **What a search meets are the first entries below the prefix,** and all of them if they are fewer than the limit. -/
theorem prefix_allBelow {t : Trie} (hended : Ended t.nodes) {start : String} (hstart : start.isEmpty = false) {place : Nat}
    (hplace : t.find? start = some place) (limit : Nat) :
    (t.collect limit t.nodes.size [place] []).map Match.entry <+: t.allBelow start ∧
      ((t.collect limit t.nodes.size [place] []).length < limit →
        (t.collect limit t.nodes.size [place] []).map Match.entry = t.allBelow start) := by
  have hbelow : t.allBelow start =
      ((t.visit t.nodes.size [place]).flatMap fun p => (t.node p).matches).map Match.entry := by
    rw [allBelow, if_neg (by simp [hstart]), hplace, hended.flatMap_matches]
  rw [hbelow]
  constructor
  · have hfirst := (prefix_collect t limit t.nodes.size [place] []).map Match.entry
    rwa [List.nil_append] at hfirst
  · intro hshort
    rw [collect_of_length_lt hshort, List.nil_append]

/-- **A search for entries with the score one takes the first ones below the prefix.** -/
theorem search?_eq_take {t : Trie} (hended : Ended t.nodes) {start : String}
    (hone : ∀ e ∈ t.allBelow start, e.score = .one) (limit : Nat) :
    t.search? start limit .queriedNode = some ((t.allBelow start).take limit) := by
  by_cases hasked : (start.isEmpty || limit = 0) = true
  · rw [search?, if_pos hasked]
    rcases Bool.or_eq_true_iff.1 hasked with hempty | hzero
    · rw [allBelow, if_pos hempty, List.take_nil]
    · rw [of_decide_eq_true hzero, List.take_zero]
  · have hstart : start.isEmpty = false := by
      rw [← Bool.not_eq_true]
      exact fun hempty => hasked (by rw [hempty]; rfl)
    rw [search?, if_neg hasked]
    cases hplace : t.find? start with
    | none =>
      rw [allBelow, if_neg (by simp [hstart]), hplace]
      exact congrArg some List.take_nil.symm
    | some place =>
      obtain ⟨hfirst, hall⟩ := prefix_allBelow hended hstart hplace limit
      have hscore : ∀ m ∈ t.collect limit t.nodes.size [place] [], m.entry.score = .one :=
        fun m hm => hone m.entry (hfirst.subset (List.mem_map_of_mem hm))
      have hnumbers : ∀ m ∈ t.collect limit t.nodes.size [place] [], m.entry.score ≠ .nan :=
        fun m hm => Entry.score_ne_nan_of_one (hscore m hm)
      have hlevel : stableSort (Match.before .queriedNode) (t.collect limit t.nodes.size [place] []) =
          t.collect limit t.nodes.size [place] [] := by
        refine stableSort_of_level fun m hm n hn => ?_
        rw [Match.before_queriedNode]
        exact Entry.not_higher_of_one (hscore m hm) (hscore n hn)
      dsimp only
      rw [Match.sort?_of_numbers hnumbers, hlevel, Option.map_some, List.map_take]
      rcases Nat.lt_or_ge (t.collect limit t.nodes.size [place] []).length limit with hless | henough
      · rw [hall hless]
      · exact congrArg some (take_eq_take_of_le hfirst (by rwa [List.length_map]))

end Trie

/-- Whether a ranking leaves matches with one score in the order of their texts, and no match counts more than one at the
beginning of a text. -/
structure Ranking.BeginningFirst (r : Ranking) : Prop where
  tie : r.tieBreak = .queriedNode
  slope : r.positionDecay ≠ .nan
  falling : r.positionDecay.NotNegative

theorem Ranking.beginningFirst_default : ({} : Ranking).BeginningFirst := ⟨rfl, by decide +kernel, by decide +kernel⟩

namespace Index

variable {inserts : List (String × Entry)} {ranking : Ranking}

theorem Fresh.score_allBelow (h : Fresh inserts) (start : String) :
    ∀ e ∈ (ofInserts inserts).trie.allBelow start, e.score = .one := by
  intro e he
  rw [Trie.allBelow, Trie.find?, Trie.descend?_eq_walk] at he
  split at he
  · cases he
  · split at he
    · next place hplace =>
      obtain ⟨p, hp, he⟩ := List.mem_flatMap.1 he
      obtain ⟨cs, -, hcs⟩ := (Trie.mem_visit_walk hplace).1 hp
      rw [Trie.entries_of_walk hcs] at he
      obtain ⟨text, hx, -⟩ := mem_texts_exact he
      exact h.scored (text, e) hx
    · cases he

theorem Fresh.prefixSearch?_eq_take (h : Fresh inserts) (htie : ranking.tieBreak = .queriedNode) (query : String)
    (limit : Nat) :
    (ofInserts inserts).prefixSearch? query limit ranking = some (((ofInserts inserts).trie.allBelow query).take limit) := by
  rw [prefixSearch?, htie]
  exact Trie.search?_eq_take (Trie.ended_ofInserts inserts) (h.score_allBelow query) limit

/-- All entries that a search by prefix and inside texts finds, before they are sorted. -/
def allTopped (i : Index) (query : String) (ranking : Ranking) : List Entry :=
  Entry.pushAll (i.trie.allBelow query) (i.texts.substringHits (Text.lower query) ranking Ranking.supplementWeight)

/-- **Nothing that is found inside texts has a score above one,** and all scores are numbers. -/
theorem Fresh.score_allTopped (h : Fresh inserts) (hranking : ranking.BeginningFirst) (query : String) :
    ∀ e ∈ (ofInserts inserts).allTopped query ranking, e.score ≠ .nan ∧ e.score.AtMostOne := by
  intro e he
  by_cases hquery : query = ""
  · -- nothing is looked for
    subst hquery
    cases he
  · -- a limit above the number of entries below the prefix cuts none of them
    have hbegun := h.prefixSearch?_eq_take hranking.tie query (((ofInserts inserts).trie.allBelow query).length + 1)
    rw [List.take_of_length_le (Nat.le_succ _)] at hbegun
    have htopped : (ofInserts inserts).allTopped query ranking = (ofInserts inserts).topUp query
        (((ofInserts inserts).trie.allBelow query).length + 1) false ranking ((ofInserts inserts).trie.allBelow query) := by
      rw [topUp, Bool.false_or, if_pos (decide_eq_true (Nat.lt_succ_self _))]
      rfl
    rw [htopped] at he
    refine ⟨h.score_topUp_ne_nan hranking.slope hquery hbegun e he, ?_⟩
    rcases mem_topUp hquery hbegun he with ⟨text, hx, -⟩ | ⟨text, f, offset, hx, -, -, -, rfl⟩
    · rw [h.scored _ hx]
      exact Binary.atMostOne_one
    · have hfactor := Ranking.atMostOne_positionFactor hranking.falling offset (Text.lower text).length
      have hweighted := hfactor.mul Ranking.isShare_supplementWeight
      change Binary.AtMostOne (f.score.mul _)
      rw [h.scored (text, f) hx, Binary.mul_comm]
      exact hweighted.mul Binary.isShare_one

/-- **Sorting leaves the entries below the prefix in front.** -/
theorem Fresh.prefix_sortByScore_allTopped (h : Fresh inserts) (hranking : ranking.BeginningFirst) (query : String) :
    (ofInserts inserts).trie.allBelow query <+: Entry.sortByScore ((ofInserts inserts).allTopped query ranking) := by
  obtain ⟨added, hadded⟩ := Entry.prefix_pushAll ((ofInserts inserts).trie.allBelow query)
    ((ofInserts inserts).texts.substringHits (Text.lower query) ranking Ranking.supplementWeight)
  have hscore := h.score_allTopped hranking query
  rw [allTopped, ← hadded] at hscore
  rw [allTopped, ← hadded, Entry.sortByScore, stableSort_append, stableSort_of_level]
  · exact List.prefix_append _ _
  · intro e he f hf
    exact Entry.not_higher_of_one (h.score_allBelow query e he) (h.score_allBelow query f hf)
  · intro e he f hf
    exact Entry.not_higher_of_atMostOne (hscore e (List.mem_append_right _ he)).2 (h.score_allBelow query f hf)

/-- **A search by prefix and inside texts is a cut** of a list that does not depend on the limit. -/
theorem Fresh.prefixOrSubstringSearch?_eq_take (h : Fresh inserts) (hranking : ranking.BeginningFirst) (query : String)
    (limit : Nat) :
    (ofInserts inserts).prefixOrSubstringSearch? query limit false ranking =
      some ((Entry.sortByScore ((ofInserts inserts).allTopped query ranking)).take limit) := by
  have hbelow := h.prefixSearch?_eq_take hranking.tie query limit
  by_cases hzero : limit = 0
  · rw [hzero, prefixOrSubstringSearch?_zero, List.take_zero]
  · rw [prefixOrSubstringSearch?_eq _ _ hzero, hbelow, Option.bind_some, topUp, Bool.false_or]
    simp only [decide_eq_true_eq]
    split
    · next hroom =>
      -- no entry below the prefix was cut
      have hall : ((ofInserts inserts).trie.allBelow query).take limit = (ofInserts inserts).trie.allBelow query :=
        List.take_of_length_le (by rw [List.length_take] at hroom; omega)
      rw [hall, ← allTopped, Entry.sortByScore?_of_numbers fun e he => (h.score_allTopped hranking query e he).1]
      rfl
    · next hfull =>
      -- the entries below the prefix are enough
      have henough : limit ≤ ((ofInserts inserts).trie.allBelow query).length := by
        rw [List.length_take] at hfull
        omega
      have hone : ∀ e ∈ ((ofInserts inserts).trie.allBelow query).take limit, e.score = .one :=
        fun e he => h.score_allBelow query e (List.mem_of_mem_take he)
      have hnumbers : ∀ e ∈ ((ofInserts inserts).trie.allBelow query).take limit, e.score ≠ .nan :=
        fun e he => Entry.score_ne_nan_of_one (hone e he)
      have hlevel : Entry.sortByScore (((ofInserts inserts).trie.allBelow query).take limit) =
          ((ofInserts inserts).trie.allBelow query).take limit :=
        stableSort_of_level fun e he f hf => Entry.not_higher_of_one (hone e he) (hone f hf)
      rw [Entry.sortByScore?_of_numbers hnumbers, hlevel, Option.map_some, List.take_take, Nat.min_self]
      exact congrArg some (take_eq_take_of_le (h.prefix_sortByScore_allTopped hranking query) henough)

theorem Fresh.nodup_keys_allTopped (h : Fresh inserts) (htie : ranking.tieBreak = .queriedNode) (query : String) :
    ((Entry.sortByScore ((ofInserts inserts).allTopped query ranking)).map Entry.key).Nodup := by
  have hbegun := h.prefixSearch?_eq_take htie query ((ofInserts inserts).trie.allBelow query).length
  rw [List.take_length] at hbegun
  have hbelow := Trie.nodup_keys_search? h.distinct hbegun
  exact (((perm_stableSort _ _).map Entry.key).nodup_iff).2 (Entry.nodup_pushAll hbelow _)

/-- **A search by words is a cut** of all candidates in their order. -/
theorem Fresh.keywordSearch?_eq_take (h : Fresh inserts) (query : String) (limit : Nat) (ranking : Ranking) :
    (ofInserts inserts).keywordSearch? query limit ranking =
      some ((Entry.sortByScore ((ofInserts inserts).candidates ranking query)).take limit) := by
  by_cases hzero : limit = 0
  · rw [keywordSearch?, hzero, List.take_zero]
    split <;> rfl
  · rw [keywordSearch?_eq _ _ hzero, Entry.sortByScore?_of_numbers]
    · rfl
    · exact score_candidates_ne_nan fun x hx => h.score_ne_nan hx

/-- All entries that a hybrid search finds, the preferred ones in front. -/
def allFound (i : Index) (query : String) (preferPrefix : Bool) (ranking : Ranking) : List Entry :=
  let byPrefix := Entry.sortByScore (i.allTopped query ranking)
  let byWord := Entry.sortByScore (i.candidates ranking query)
  if preferPrefix then
    Entry.pushAll (Entry.pushAll [] byPrefix) (byWord.map fun e => e.scaled Ranking.secondaryWeight)
  else Entry.pushAll (Entry.pushAll [] byWord) (byPrefix.map fun e => e.scaled Ranking.secondaryWeight)

/-- **A hybrid search is a cut** of a list that does not depend on the limit, if there is room for as many entries as allowed. -/
theorem Fresh.hybridSearch?_eq_take (h : Fresh inserts) (hranking : ranking.BeginningFirst) (query : String)
    (preferPrefix : Bool) {limit : Nat} (hroom : limit ≤ Entry.maxRoom) :
    (ofInserts inserts).hybridSearch? query limit preferPrefix ranking =
      some (((ofInserts inserts).allFound query preferPrefix ranking).take limit) := by
  have hbyPrefix := h.nodup_keys_allTopped hranking.tie query
  have hbyWord : ((Entry.sortByScore ((ofInserts inserts).candidates ranking query)).map Entry.key).Nodup :=
    ((perm_stableSort _ _).map Entry.key).nodup_iff.2 (nodup_keys_candidates _ _ _)
  rw [hybridSearch?, h.prefixOrSubstringSearch?_eq_take hranking, h.keywordSearch?_eq_take, allFound]
  cases preferPrefix with
  | true => exact Entry.merge?_eq_some_iff.2 ⟨hroom, Entry.merge_take hbyPrefix hbyWord limit⟩
  | false => exact Entry.merge?_eq_some_iff.2 ⟨hroom, Entry.merge_take hbyWord hbyPrefix limit⟩

end Index
end Suggest
