/-
# What is found while a text is typed

A search with room for everything finds a key exactly if it was inserted under a text whose lower case starts with the lower
case of the query (`mem_keys_search?_iff`).  The first part of a text is such a query for the text, unless it cuts the text
behind a capital sigma that ends a word in the first part only.  Then the entry is found only if its key was inserted under
another text that goes on from the query (`mem_keys_search?_typed`).
-/

import Suggest.Proofs.Text.Prefixes
import Suggest.Proofs.Trie.Contents
import Suggest.Proofs.Trie.Search

namespace Suggest
namespace Trie

variable {inserts : List (String × Entry)}

/-- **What is found with room for everything.** -/
theorem mem_keys_search?_iff {start : String} (hstart : start ≠ "") {limit : Nat} {tieBreak : TieBreak}
    (hlimit : ((ofInserts inserts).nodes.toList.flatMap Node.entries).length ≤ limit) {found : List Entry}
    (h : (ofInserts inserts).search? start limit tieBreak = some found) {k : Entry.Key} :
    k ∈ found.map Entry.key ↔ ∃ x ∈ inserts, x.2.key = k ∧ (Text.lower start).toList <+: (Text.lower x.1).toList := by
  rw [← trie_ofInserts] at hlimit h
  rw [List.mem_map]
  constructor
  · rintro ⟨e, he, rfl⟩
    obtain ⟨cs, hcs, he⟩ := mem_search? h he
    obtain ⟨text, hx, htext⟩ := Index.mem_texts_exact he
    refine ⟨(text, e), hx, rfl, ?_⟩
    rwa [← htext, String.toList_ofList]
  · rintro ⟨x, hx, rfl, hstarts⟩
    have hkey := Index.mem_keys_texts_exact.2 ⟨x, hx, rfl, rfl⟩
    obtain ⟨e, he, hkey⟩ := List.mem_map.1 hkey
    rw [← String.ofList_toList (s := Text.lower x.1)] at he
    exact ⟨e, mem_search?_of_length_le (by simpa using hstart) hlimit h hstarts he, hkey⟩

/-- **What is found while a text is typed.**  With room for all entries there are, the first part of an inserted text finds
its entry, up to what else the entry with its key says, unless it cuts the text behind a capital sigma that ends a word in the
first part only.  Then it finds it exactly if the key was also inserted under a text that does start with the query.  The search
has an answer unless there are more than 20 entries and the score of an inserted one is no number. -/
theorem mem_keys_search?_typed {text : String} {e : Entry} (hinsert : (text, e) ∈ inserts) {typed : String}
    {rest : List Char} (htyped : typed ≠ "") (htext : text.toList = typed.toList ++ rest) {limit : Nat}
    (hlimit : ((ofInserts inserts).nodes.toList.flatMap Node.entries).length ≤ limit) (tieBreak : TieBreak) :
    (∀ found, (ofInserts inserts).search? typed limit tieBreak = some found →
      (e.key ∈ found.map Entry.key ↔ ¬Text.CutsSigma [] typed.toList rest ∨
        ∃ x ∈ inserts, x.2.key = e.key ∧ (Text.lower typed).toList <+: (Text.lower x.1).toList)) ∧
    ((ofInserts inserts).search? typed limit tieBreak = none →
      20 < ((ofInserts inserts).nodes.toList.flatMap Node.entries).length ∧ ∃ x ∈ inserts, x.2.score = .nan) := by
  constructor
  · intro found h
    rw [mem_keys_search?_iff htyped hlimit h, ← Text.lower_prefix_iff htext, iff_comm, or_iff_right_iff_imp]
    exact fun hstarts => ⟨(text, e), hinsert, rfl, hstarts⟩
  · intro h
    rw [← trie_ofInserts] at h ⊢
    exact exists_nan_of_search?_ofInserts_eq_none h

/-- A text of two words, the first of which ends with a sigma. -/
def twoWords : List (String × Entry) := [("ΑΣ Β", { id := "1", text := "ΑΣ Β", category := "item" })]

/-- The first word finds the text. -/
theorem mem_keys_search?_twoWords :
    ∃ found, (ofInserts twoWords).search? "ΑΣ" 10 .queriedNode = some found ∧ ⟨"1", "item"⟩ ∈ found.map Entry.key := by
  have htext : "ΑΣ Β".toList = "ΑΣ".toList ++ " Β".toList := by decide
  have hinsert : ("ΑΣ Β", { id := "1", text := "ΑΣ Β", category := "item" }) ∈ twoWords := List.mem_cons_self
  have hlimit : ((ofInserts twoWords).nodes.toList.flatMap Node.entries).length ≤ 10 := by decide +kernel
  obtain ⟨hfound, hnone⟩ := mem_keys_search?_typed hinsert (by decide) htext hlimit .queriedNode
  cases h : (ofInserts twoWords).search? "ΑΣ" 10 .queriedNode with
  | none =>
    obtain ⟨-, x, hx, hnan⟩ := hnone h
    rw [List.mem_singleton.1 hx] at hnan
    cases hnan
  | some found =>
    refine ⟨found, rfl, (hfound found h).2 (.inl ?_)⟩
    rintro ⟨more, ignored, -, -, -, hcased⟩
    exact absurd hcased (by decide +kernel)

/-- A word with a sigma inside. -/
def oneWord : List (String × Entry) := [("ΑΣΒ", { id := "1", text := "ΑΣΒ", category := "item" })]

/-- The part of the word that ends with the sigma finds nothing. -/
theorem search?_oneWord_eq_nil :
    "ΑΣΒ".toList = "ΑΣ".toList ++ "Β".toList ∧
      ((ofInserts oneWord).nodes.toList.flatMap Node.entries).length ≤ 10 ∧
      (ofInserts oneWord).search? "ΑΣ" 10 .queriedNode = some [] := by
  decide +kernel

end Trie
end Suggest
