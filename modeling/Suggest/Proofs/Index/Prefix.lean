/-
# A prefix search is a scan of the texts

The trie and the postings of an index hold the same entries under the same texts (`texts_get?_eq_some_iff`).  The places
below a prefix are visited in the order of their texts, so those where a text ends are the bindings of the postings that start
with the prefix, in their order (`ended_trail`).

So a prefix search can be done without the trie: the entries are taken from one text with the prefix after the other until
there are enough, and what has been taken is sorted by score, which the merge sort of the library does as well
(`prefixSearch?_ofInserts`).
-/

import Mathlib.Data.List.Sort
import Suggest.Proofs.Scores
import Suggest.Proofs.Sorting.Stability
import Suggest.Proofs.Trie.Contents
import Suggest.Proofs.Trie.Order

namespace Suggest

namespace Postings

/-- The entries under the keys that start with a prefix, from one key after the other until there are as many as wanted. -/
def scan (p : Postings) (start : String) (wanted : Nat) : List Entry :=
  gather wanted [] ((p.toList.filter fun b => start.toList.isPrefixOf b.1.toList).map Prod.snd)

/-- Under a key that is bound stands an entry. -/
theorem get?_ofAdds_eq_some_iff {adds : List (String × Entry)} {key : String} {entries : List Entry} :
    (ofAdds adds).get? key = some entries ↔ (ofAdds adds).exact key = entries ∧ entries ≠ [] := by
  constructor
  · intro h
    have hmem := SortedMap.get?_eq_some_iff.1 h
    have hexact := exact_of_mem_toList hmem
    obtain ⟨e, he⟩ := mem_keys_ofAdds.1 (List.mem_map_of_mem (f := Prod.fst) hmem)
    have hkey := mem_keys_exact_ofAdds.2 ⟨e, he, rfl⟩
    refine ⟨hexact, ?_⟩
    rintro rfl
    rw [hexact] at hkey
    cases hkey
  · rintro ⟨rfl, hne⟩
    obtain ⟨e, he⟩ := List.exists_mem_of_ne_nil _ hne
    exact SortedMap.get?_eq_some_iff.2 (mem_toList_of_mem_exact he)

end Postings

namespace Trie

variable {inserts : List (String × Entry)}

/-- A text ends exactly where there are entries. -/
theorem terminal_iff {cs : List Char} {p : Nat} (h : walk (Index.ofInserts inserts).trie.nodes 0 cs = some p) :
    ((Index.ofInserts inserts).trie.node p).terminal = true ↔ ((Index.ofInserts inserts).trie.node p).entries ≠ [] := by
  refine ⟨fun hterminal hnone => ?_, ended_ofInserts inserts p⟩
  rw [trie_ofInserts] at h hterminal hnone
  have hnode := bare_node_ofInserts h
  have hmarked : !(insertedUnder inserts (String.ofList cs)).isEmpty := (congrArg Node.terminal hnode).symm.trans hterminal
  have hentries : Entry.pushAll [] (insertedUnder inserts (String.ofList cs)) = [] :=
    (congrArg Node.entries hnode).symm.trans hnone
  obtain ⟨e, he⟩ := List.exists_mem_of_ne_nil (insertedUnder inserts (String.ofList cs)) (by simpa using hmarked)
  have hkey : e.key ∈ (Entry.pushAll [] (insertedUnder inserts (String.ofList cs))).map Entry.key :=
    Entry.mem_keys_pushAll.2 (.inr (List.mem_map_of_mem he))
  rw [hentries] at hkey
  cases hkey

/-- **What is bound to a text stands at the end of its path,** where a text ends. -/
theorem texts_get?_eq_some_iff {key : String} {entries : List Entry} :
    (Index.ofInserts inserts).texts.get? key = some entries ↔
      ∃ p, walk (Index.ofInserts inserts).trie.nodes 0 key.toList = some p ∧
        ((Index.ofInserts inserts).trie.node p).terminal = true ∧
        ((Index.ofInserts inserts).trie.node p).entries = entries := by
  have hexact : (Index.ofInserts inserts).texts.get? key = some entries ↔
      (Index.ofInserts inserts).texts.exact key = entries ∧ entries ≠ [] := by
    rw [Index.texts_ofInserts]
    exact Postings.get?_ofAdds_eq_some_iff
  have hentries := entries_contentAt_ofInserts inserts key.toList
  rw [String.ofList_toList] at hentries
  rw [hexact, ← hentries]
  constructor
  · rintro ⟨rfl, hne⟩
    cases hp : walk (Index.ofInserts inserts).trie.nodes 0 key.toList with
    | none => exact absurd (congrArg Node.entries (contentAt_of_walk_none hp)) hne
    | some p =>
      rw [contentAt_of_walk hp] at hne ⊢
      exact ⟨p, rfl, (terminal_iff hp).2 hne, rfl⟩
  · rintro ⟨p, hp, hterminal, rfl⟩
    have hcontent := congrArg Node.entries (contentAt_of_walk hp)
    rw [hcontent]
    exact ⟨rfl, (terminal_iff hp).1 hterminal⟩

/-- **Where texts end below a prefix,** the bindings of the postings that start with it are visited in their order. -/
theorem ended_trail {start : List Char} {place : Nat}
    (hplace : walk (Index.ofInserts inserts).trie.nodes 0 start = some place) :
    (((Index.ofInserts inserts).trie.trail (Index.ofInserts inserts).trie.nodes.size [(start, place)]).filter fun x =>
        !((Index.ofInserts inserts).trie.node x.2).entries.isEmpty).map
      (fun x => (String.ofList x.1, ((Index.ofInserts inserts).trie.node x.2).entries)) =
      (Index.ofInserts inserts).texts.toList.filter fun b => start.isPrefixOf b.1.toList := by
  have htree := isTree_ofInserts inserts
  have hasymm : ∀ {b c : String × List Entry}, b.1 < c.1 → ¬c.1 < b.1 := fun h h' => Key.irrefl _ (Key.trans h h')
  have : Std.Irrefl (α := String × List Entry) fun b c => b.1 < c.1 := ⟨fun b => Key.irrefl b.1⟩
  have : Std.Antisymm (α := String × List Entry) fun b c => b.1 < c.1 := ⟨fun _ _ h h' => absurd h' (hasymm h)⟩
  refine List.Pairwise.eq_of_mem_iff (r := fun b c => b.1 < c.1) ?_ ?_ fun b => ?_
  · rw [List.pairwise_map]
    refine ((htree.pairwise_trail _ (ascending_singleton hplace)).filter _).imp fun {x y} h => ?_
    change (String.ofList x.1).toList < (String.ofList y.1).toList
    rwa [String.toList_ofList, String.toList_ofList]
  · have hordered := (Index.ofInserts inserts).texts.ordered
    rw [List.pairwise_map] at hordered
    exact hordered.filter _
  · obtain ⟨key, entries⟩ := b
    rw [List.mem_filter, ← SortedMap.get?_eq_some_iff, texts_get?_eq_some_iff, List.mem_map, List.isPrefixOf_iff_prefix]
    constructor
    · rintro ⟨⟨cs, p⟩, hx, heq⟩
      rw [List.mem_filter, htree.mem_trail_iff hplace] at hx
      obtain ⟨⟨hstarts, hwalk⟩, hsome⟩ := hx
      cases heq
      rw [String.toList_ofList]
      exact ⟨⟨p, hwalk, (terminal_iff hwalk).2 (by simpa using hsome), rfl⟩, hstarts⟩
    · rintro ⟨⟨p, hwalk, hterminal, rfl⟩, hstarts⟩
      refine ⟨(key.toList, p), List.mem_filter.2 ⟨(htree.mem_trail_iff hplace).2 ⟨hstarts, hwalk⟩, ?_⟩, ?_⟩
      · simpa using (terminal_iff hwalk).1 hterminal
      · rw [String.ofList_toList]

/-- **What a search meets is what a scan of the texts takes.** -/
theorem map_entry_collect {start : String} {place limit : Nat} (hlimit : 0 < limit)
    (hplace : walk (Index.ofInserts inserts).trie.nodes 0 start.toList = some place) :
    ((Index.ofInserts inserts).trie.collect limit (Index.ofInserts inserts).trie.nodes.size [place] []).map Match.entry =
      (Index.ofInserts inserts).texts.scan start limit := by
  have hmatches : (List.map Match.entry ∘ fun p => ((Index.ofInserts inserts).trie.node p).matches) =
      fun p => ((Index.ofInserts inserts).trie.node p).entries := funext (ended_ofInserts inserts).matches
  have hroom : ([] : List Entry).length < limit := hlimit
  rw [collect_eq_gather, map_gather, List.map_nil, List.map_map, hmatches, ← map_snd_trail_singleton _ _ start.toList,
    List.map_map, ← gather_filter hroom, List.filter_map, Postings.scan, ← ended_trail hplace, List.map_map]
  rfl

end Trie

namespace Entry

/-- **Entries of which every score is a number are sorted as the merge sort of the library sorts them.** -/
theorem sortByScore_eq_mergeSort {entries : List Entry} (h : ∀ e ∈ entries, e.score ≠ .nan) :
    sortByScore entries = entries.mergeSort fun e f => !e.score.less f.score :=
  stableSort_eq_mergeSort (fun hab => Binary.less_asymm hab) fun _ _ e he _ _ hxz => Binary.less_or_less (h e he) hxz

end Entry

namespace Index

variable {inserts : List (String × Entry)}

theorem score_scan_ne_nan (h : ∀ x ∈ inserts, x.2.score ≠ .nan) (start : String) (wanted : Nat) :
    ∀ e ∈ (ofInserts inserts).texts.scan start wanted, e.score ≠ .nan := by
  intro e he
  obtain ⟨batch, hbatch, he⟩ := (mem_gather he).resolve_left List.not_mem_nil
  obtain ⟨b, hb, rfl⟩ := List.mem_map.1 hbatch
  rw [← Postings.exact_of_mem_toList (List.mem_of_mem_filter hb)] at he
  obtain ⟨text, hx, -⟩ := mem_texts_exact he
  exact h _ hx

/-- **The trie and the texts of an index agree.**  They hold the same entries under the same texts, in the same order.  And if
every score that was inserted is a number, a prefix search for something comes to the same as a scan of the texts in their
order, until there are enough entries, which are then sorted by falling score. -/
theorem prefixSearch?_ofInserts (h : ∀ x ∈ inserts, x.2.score ≠ .nan) :
    (∀ (key : String) (entries : List Entry), (ofInserts inserts).texts.get? key = some entries ↔
      ∃ p, (ofInserts inserts).trie.descend? 0 key.toList = some p ∧ ((ofInserts inserts).trie.node p).terminal = true ∧
        ((ofInserts inserts).trie.node p).entries = entries) ∧
    ∀ (query : String) (limit : Nat) (ranking : Ranking), query ≠ "" → 1 ≤ limit → ranking.tieBreak = .queriedNode →
      (ofInserts inserts).prefixSearch? query limit ranking =
        some ((((ofInserts inserts).texts.scan (Text.lower query) limit).mergeSort fun e f =>
          !e.score.less f.score).take limit) := by
  refine ⟨fun key entries => ?_, fun query limit ranking hquery hlimit hranking => ?_⟩
  · simpa only [Trie.descend?_eq_walk] using Trie.texts_get?_eq_some_iff
  have hasked : ¬(query.isEmpty || limit = 0) = true := by
    simp [hquery]
    omega
  rw [← Entry.sortByScore_eq_mergeSort (score_scan_ne_nan h _ _), prefixSearch?, Trie.search?, if_neg hasked,
    Trie.find?_eq_walk, hranking]
  cases hplace : Trie.walk (ofInserts inserts).trie.nodes 0 (Text.lower query).toList with
  | some place =>
    have hmet := Trie.map_entry_collect hlimit hplace
    have hnumbers : ∀ m ∈ (ofInserts inserts).trie.collect limit (ofInserts inserts).trie.nodes.size [place] [],
        m.entry.score ≠ .nan := by
      intro m hm
      refine score_scan_ne_nan h (Text.lower query) limit m.entry ?_
      rw [← hmet]
      exact List.mem_map_of_mem hm
    dsimp only
    rw [Trie.Match.sort?_of_numbers hnumbers, Option.map_some, List.map_take,
      map_stableSort Trie.Match.entry Trie.Match.before_queriedNode, hmet]
    rfl
  | none =>
    -- no text goes on from a path that is not there
    have hnone : (ofInserts inserts).texts.toList.filter (fun b => (Text.lower query).toList.isPrefixOf b.1.toList) = [] := by
      refine List.filter_eq_nil_iff.2 fun b hb hstarts => ?_
      obtain ⟨k, hk, -⟩ := Trie.texts_get?_eq_some_iff.1 (SortedMap.get?_eq_some_iff.2 hb)
      obtain ⟨p, hp⟩ := Trie.exists_walk_of_prefix (List.isPrefixOf_iff_prefix.1 hstarts) hk
      rw [hplace] at hp
      cases hp
    have hscan : (ofInserts inserts).texts.scan (Text.lower query) limit = [] := by rw [Postings.scan, hnone]; rfl
    rw [hscan]
    exact congrArg some List.take_nil.symm

/-- Two texts with a prefix in common, the later one with the higher score. -/
def twoTexts : List (String × Entry) :=
  [("abc", { id := "1", text := "abc", category := "item", score := .ofNat 2 }),
    ("Ab", { id := "2", text := "Ab", category := "item" })]

/-- One text is enough, so the entry under the other is not met, although its score is higher. -/
theorem prefixSearch?_twoTexts :
    (ofInserts twoTexts).prefixSearch? "A" 1 {} = some [{ id := "2", text := "Ab", category := "item" }] ∧
      ∃ p, (ofInserts twoTexts).trie.descend? 0 "abc".toList = some p ∧
        ((ofInserts twoTexts).trie.node p).terminal = true := by
  have hscores : ∀ x ∈ twoTexts, x.2.score ≠ .nan := by decide +kernel
  obtain ⟨htexts, hsearch⟩ := prefixSearch?_ofInserts hscores
  have hscan : (ofInserts twoTexts).texts.scan (Text.lower "A") 1 = [{ id := "2", text := "Ab", category := "item" }] := by
    decide +kernel
  have hbound : (ofInserts twoTexts).texts.get? "abc" =
      some [{ id := "1", text := "abc", category := "item", score := .ofNat 2 }] := by decide +kernel
  constructor
  · rw [hsearch "A" 1 {} (by decide) (Nat.le_refl 1) rfl, hscan, List.mergeSort_singleton]
    rfl
  · obtain ⟨p, hp, hterminal, -⟩ := (htexts _ _).1 hbound
    exact ⟨p, hp, hterminal⟩

end Index
end Suggest
