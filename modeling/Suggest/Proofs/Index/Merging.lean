/-
# Precedence in a merge

The first entry of each key of the first list comes before all others and as it is.  Behind it stands the first entry of each key
that only the second list has, at the weight of the second list.  A merge is a beginning of that, as long as its limit
(`Entry.merge_eq_take_mergeable`).  So a key of the first list is never taken from the second one, also if there was no room for
it where it stands in the first.

A limit that leaves room for the keys of both lists leaves none of them out, whichever list comes first
(`Entry.mem_keys_merge_of_card_le`).  So it makes no difference to the keys that a hybrid search finds which of its strategies is
preferred (`Index.precedence_of_merge?`).
-/

import Suggest.Proofs.Index.Distinct

namespace Suggest

namespace Entry

variable {primary secondary : List Entry} {limit : Nat}

/-- All that a merge could take: the first entry of each key of the first list, and then of each other key of the second one at
the weight of the second list. -/
def mergeable (primary secondary : List Entry) : List Entry :=
  (primary.eraseDupsBy fun e f => e.key = f.key) ++
    ((secondary.filter fun e => e.key ∉ primary.map key).eraseDupsBy fun e f => e.key = f.key).map
      fun e => e.scaled Ranking.secondaryWeight

theorem mergeable_eq_pushAll (primary secondary : List Entry) :
    mergeable primary secondary =
      pushAll (pushAll [] primary) (secondary.map fun e => e.scaled Ranking.secondaryWeight) := by
  have hkeys : ∀ e : Entry, (e.scaled Ranking.secondaryWeight).key ∉ (pushAll [] primary).map key ↔
      e.key ∉ primary.map key := fun e => by simp [mem_keys_pushAll]
  rw [pushAll_eq_append (pushAll [] primary), List.filter_map, mergeable, ← pushAll_eq_eraseDupsBy,
    ← pushAll_eq_eraseDupsBy, ← pushAll_map_scaled]
  simp only [Function.comp_def, hkeys, List.map_nil]

/-- **A merge is a beginning of all that it could take.** -/
theorem merge_eq_take_mergeable (primary secondary : List Entry) (limit : Nat) :
    merge primary secondary limit = (mergeable primary secondary).take limit := by
  rw [merge_eq_take, take_pushAll_take_left, mergeable_eq_pushAll]

theorem nodup_keys_mergeable (primary secondary : List Entry) : ((mergeable primary secondary).map key).Nodup := by
  rw [mergeable_eq_pushAll]
  exact nodup_pushAll (@nodup_pushAll [] List.nodup_nil primary) _

theorem mem_keys_mergeable {k : Key} :
    k ∈ (mergeable primary secondary).map key ↔ k ∈ (primary ++ secondary).map key := by
  have hkeys : (secondary.map fun e => e.scaled Ranking.secondaryWeight).map key = secondary.map key := by
    rw [List.map_map]
    rfl
  rw [mergeable_eq_pushAll, mem_keys_pushAll, mem_keys_pushAll, hkeys, List.map_append, List.mem_append]
  simp

/-- There are as many entries to take as keys in both lists. -/
theorem length_mergeable (primary secondary : List Entry) :
    (mergeable primary secondary).length = ((primary ++ secondary).map key).toFinset.card := by
  have hkeys : ((mergeable primary secondary).map key).toFinset = ((primary ++ secondary).map key).toFinset :=
    Finset.ext fun k => by rw [List.mem_toFinset, List.mem_toFinset, mem_keys_mergeable]
  rw [← hkeys, List.toFinset_card_of_nodup (nodup_keys_mergeable primary secondary), List.length_map]

/-- **What a merge could take with a key is the first entry with it,** as it is if the first list has one, and otherwise from the
second list and at its weight. -/
theorem find?_mergeable (primary secondary : List Entry) (k : Key) :
    (mergeable primary secondary).find? (fun e => e.key = k) =
      (primary.find? fun e => e.key = k).or
        ((secondary.find? fun e => e.key = k).map fun e => e.scaled Ranking.secondaryWeight) := by
  rw [mergeable_eq_pushAll, find?_pushAll, find?_pushAll, List.find?_map]
  rfl

/-- So it is weighted only if the first list does not have its key. -/
theorem of_mem_mergeable {e : Entry} (h : e ∈ mergeable primary secondary) :
    (e.key ∈ primary.map key → primary.find? (fun f => f.key = e.key) = some e) ∧
    (e.key ∉ primary.map key → ∃ f, secondary.find? (fun f => f.key = e.key) = some f ∧
      e = f.scaled Ranking.secondaryWeight) := by
  have hfind := find?_key_of_mem (nodup_keys_mergeable primary secondary) h
  rw [find?_mergeable, Option.or_eq_some_iff] at hfind
  rcases hfind with hfirst | ⟨hnone, hsecond⟩
  · exact ⟨fun _ => hfirst, fun hnew => absurd (List.mem_map_of_mem (List.mem_of_find?_eq_some hfirst)) hnew⟩
  · obtain ⟨f, hf, rfl⟩ := Option.map_eq_some_iff.1 hsecond
    refine ⟨fun hold => ?_, fun _ => ⟨f, hf, rfl⟩⟩
    obtain ⟨g, hg, hkey⟩ := List.mem_map.1 hold
    exact absurd (decide_eq_true hkey) (List.find?_eq_none.1 hnone g hg)

/-- A merge with room for the keys of both lists has all of them. -/
theorem mem_keys_merge_of_card_le (h : ((primary ++ secondary).map key).toFinset.card ≤ limit) {k : Key} :
    k ∈ (merge primary secondary limit).map key ↔ k ∈ (primary ++ secondary).map key := by
  rw [merge_eq_take_mergeable, List.take_of_length_le (by rwa [length_mergeable]), mem_keys_mergeable]

end Entry

namespace Index

/-- **A merge keeps the order of precedence and loses no entry.**  It has the first entry of each key of the first list, in their
order and as they are, and then the first entry of each key that only the second list has, in their order and at the weight of the
second list, and takes as many of them as the limit allows.  So there are as many as the limit or, if they are fewer, as the keys of
both lists, and none with a key of the first list is weighted.  If the limit allows for the keys of what a search by prefix and a
search by words find, a hybrid search finds the same keys whichever of them is preferred, and if it has no answer with one
preference it has none with the other.  Room is taken for as many entries as the limit says: if there is none, there is no answer
at all. -/
theorem precedence_of_merge? (primary secondary : List Entry) (limit : Nat) :
    (Entry.maxRoom < limit → Entry.merge? primary secondary limit = none) ∧
    (limit ≤ Entry.maxRoom → ∃ found, Entry.merge? primary secondary limit = some found ∧
      found = ((primary.eraseDupsBy fun e f => e.key = f.key) ++
        ((secondary.filter fun e => e.key ∉ primary.map Entry.key).eraseDupsBy fun e f => e.key = f.key).map
          fun e => e.scaled Ranking.secondaryWeight).take limit ∧
      found.length = min limit ((primary ++ secondary).map Entry.key).toFinset.card ∧
      ∀ e ∈ found,
        (e.key ∈ primary.map Entry.key → primary.find? (fun f => f.key = e.key) = some e) ∧
        (e.key ∉ primary.map Entry.key → ∃ f, secondary.find? (fun f => f.key = e.key) = some f ∧
          e = f.scaled Ranking.secondaryWeight)) ∧
    ∀ (i : Index) (query : String) (ranking : Ranking),
      (i.hybridSearch? query limit true ranking = none ↔ i.hybridSearch? query limit false ranking = none) ∧
      ∀ byPrefix byWord, i.prefixOrSubstringSearch? query limit false ranking = some byPrefix →
        i.keywordSearch? query limit ranking = some byWord →
        ((byPrefix ++ byWord).map Entry.key).toFinset.card ≤ limit → limit ≤ Entry.maxRoom →
        ∃ found other, i.hybridSearch? query limit true ranking = some found ∧
          i.hybridSearch? query limit false ranking = some other ∧
          ∀ k, k ∈ found.map Entry.key ↔ k ∈ other.map Entry.key := by
  refine ⟨fun hroom => if_neg (Nat.not_le.2 hroom), fun hroom => ?_, fun i query ranking => ⟨?_, ?_⟩⟩
  · refine ⟨_, Entry.merge?_eq_some_iff.2 ⟨hroom, rfl⟩, Entry.merge_eq_take_mergeable primary secondary limit, ?_, ?_⟩
    · rw [Entry.merge_eq_take_mergeable, List.length_take, Entry.length_mergeable]
    · intro e he
      rw [Entry.merge_eq_take_mergeable] at he
      exact Entry.of_mem_mergeable (List.mem_of_mem_take he)
  · rw [hybridSearch?_eq_none_iff, hybridSearch?_eq_none_iff]
  · intro byPrefix byWord hbegins hword hcard hroom
    refine ⟨_, _, hybridSearch?_eq_some_iff.2 ⟨hroom, byPrefix, hbegins, byWord, hword, rfl⟩,
      hybridSearch?_eq_some_iff.2 ⟨hroom, byPrefix, hbegins, byWord, hword, rfl⟩, fun k => ?_⟩
    have hother : ((byWord ++ byPrefix).map Entry.key).toFinset.card ≤ limit := by
      rwa [List.map_append, List.toFinset_append, Finset.union_comm, ← List.toFinset_append, ← List.map_append]
    rw [if_pos rfl, if_neg Bool.false_ne_true, Entry.mem_keys_merge_of_card_le hcard,
      Entry.mem_keys_merge_of_card_le hother, List.map_append, List.map_append, List.mem_append, List.mem_append, or_comm]

/-- Entries of which the last has the key of the first. -/
def preferredEntries : List Entry :=
  [{ id := "1", text := "bear", category := "item" }, { id := "2", text := "fox", category := "item" },
    { id := "1", text := "old bear", category := "item" }]

/-- Entries of which only the second has a key of its own. -/
def otherEntries : List Entry :=
  [{ id := "2", text := "red fox", category := "item" }, { id := "3", text := "hare", category := "item" }]

theorem precedence_of_merge?_threeKeys :
    (3 ≤ Entry.maxRoom ∧ ∃ found, Entry.merge? preferredEntries otherEntries 3 = some found ∧ found.length = 3 ∧
      ∀ e ∈ found, e.key ∈ preferredEntries.map Entry.key → preferredEntries.find? (fun f => f.key = e.key) = some e) ∧
    ∃ found other, (ofInserts threeNames).hybridSearch? "bear" 10 true {} = some found ∧
      (ofInserts threeNames).hybridSearch? "bear" 10 false {} = some other ∧
      ∀ k, k ∈ found.map Entry.key ↔ k ∈ other.map Entry.key := by
  have hroom : 3 ≤ Entry.maxRoom := by decide
  obtain ⟨-, hmerge, -⟩ := precedence_of_merge? preferredEntries otherEntries 3
  obtain ⟨found, hfound, -, hlength, hfirst⟩ := hmerge hroom
  refine ⟨⟨hroom, found, hfound, hlength.trans (by decide +kernel), fun e he => (hfirst e he).1⟩, ?_⟩
  have hprefixes : ((ofInserts threeNames).prefixOrSubstringSearch? "bear" 10 false {}).map (·.map Entry.key) =
      some [⟨"2", "item"⟩, ⟨"1", "item"⟩] := by decide +kernel
  have hwords : ((ofInserts threeNames).keywordSearch? "bear" 10 {}).map (·.map Entry.key) =
      some [⟨"1", "item"⟩, ⟨"2", "item"⟩] := by decide +kernel
  obtain ⟨byPrefix, hbyPrefix, hprefixKeys⟩ := Option.map_eq_some_iff.1 hprefixes
  obtain ⟨byWord, hbyWord, hwordKeys⟩ := Option.map_eq_some_iff.1 hwords
  have hcard : ((byPrefix ++ byWord).map Entry.key).toFinset.card ≤ 10 := by
    rw [List.map_append, hprefixKeys, hwordKeys]
    decide
  obtain ⟨-, -, hhybrid⟩ := precedence_of_merge? [] [] 10
  exact (hhybrid (ofInserts threeNames) "bear" {}).2 byPrefix byWord hbyPrefix hbyWord hcard (by decide)

/-- **There is no answer if the limit has 64 bits,** though there is an entry to take. -/
theorem merge?_preferredEntries_eq_none :
    Entry.merge? preferredEntries otherEntries (1 <<< 63) = none ∧
      Entry.merge? preferredEntries otherEntries 3 ≠ none := by
  decide +kernel

end Index
end Suggest
