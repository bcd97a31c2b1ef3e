/-
# What postings hold

Postings come about by putting one entry after the other under a key (`ofAdds`).  Of the entries that were put under a key the
first one of each key of theirs stands there (`exact_ofAdds`).  So an entry stands there only if it was put there
(`mem_exact_ofAdds`), each key of entries that were put there stands there (`mem_keys_exact_ofAdds`), and none stands there twice
(`nodup_keys_exact_ofAdds`).

An index inserts an entry into two postings, once under each word of the text and once under the whole text
(`Index.words_ofInserts`, `Index.texts_ofInserts`).
-/

import Mathlib.Data.List.Induction
import Suggest.Index
import Suggest.Proofs.Entry
import Suggest.Proofs.SortedMap

namespace Suggest
namespace Postings

/-- Postings of entries that are put under a key one after the other. -/
def ofAdds (adds : List (String × Entry)) : Postings := adds.foldl (fun p a => p.add a.1 a.2) ∅

theorem ofAdds_concat (adds : List (String × Entry)) (key : String) (e : Entry) :
    ofAdds (adds ++ [(key, e)]) = (ofAdds adds).add key e := by
  rw [ofAdds, List.foldl_append]
  rfl

theorem exact_add_self (p : Postings) (key : String) (e : Entry) :
    (p.add key e).exact key = Entry.pushUnique (p.exact key) e := by
  rw [exact, get?_add_self]
  rfl

theorem exact_add_of_ne (p : Postings) {key other : String} (h : other ≠ key) (e : Entry) :
    (p.add key e).exact other = p.exact other := by
  rw [exact, get?_add_of_ne p h, exact]

/-- **Under a key stands the first entry of each key of entries that were put there,** in the order in which they were. -/
theorem exact_ofAdds (adds : List (String × Entry)) (key : String) :
    (ofAdds adds).exact key = Entry.pushAll [] ((adds.filter fun a => a.1 = key).map Prod.snd) := by
  induction adds using List.reverseRecOn with
  | nil => rfl
  | append_singleton adds a ih =>
    obtain ⟨other, f⟩ := a
    rw [ofAdds_concat, List.filter_append, List.map_append, Entry.pushAll_append, ← ih]
    by_cases hkey : other = key
    · subst hkey
      rw [exact_add_self, List.filter_cons_of_pos (by simp)]
      rfl
    · rw [exact_add_of_ne _ (Ne.symm hkey), List.filter_cons_of_neg (by simpa using hkey)]
      rfl

theorem mem_adds_iff {adds : List (String × Entry)} {key : String} {e : Entry} :
    e ∈ (adds.filter fun a => a.1 = key).map Prod.snd ↔ (key, e) ∈ adds := by
  simp

/-- An entry stands only where it was put. -/
theorem mem_exact_ofAdds {adds : List (String × Entry)} {key : String} {e : Entry} (h : e ∈ (ofAdds adds).exact key) :
    (key, e) ∈ adds := by
  rw [exact_ofAdds] at h
  exact mem_adds_iff.1 ((Entry.mem_of_mem_pushAll h).resolve_left List.not_mem_nil)

/-- **Of each key of entries that were put somewhere one stands there.** -/
theorem mem_keys_exact_ofAdds {adds : List (String × Entry)} {key : String} {k : Entry.Key} :
    k ∈ ((ofAdds adds).exact key).map Entry.key ↔ ∃ e, (key, e) ∈ adds ∧ e.key = k := by
  rw [exact_ofAdds, Entry.mem_keys_pushAll, List.map_nil, or_iff_right List.not_mem_nil, List.mem_map]
  simp only [mem_adds_iff]

/-- No two entries with one key stand in one place. -/
theorem nodup_keys_exact_ofAdds (adds : List (String × Entry)) (key : String) :
    (((ofAdds adds).exact key).map Entry.key).Nodup := by
  rw [exact_ofAdds]
  exact @Entry.nodup_pushAll [] List.nodup_nil _

/-- **Of the entries that were put somewhere with one key the first one is found there.** -/
theorem find?_exact_ofAdds (adds : List (String × Entry)) (key : String) (k : Entry.Key) :
    ((ofAdds adds).exact key).find? (fun e => e.key = k) =
      (adds.find? fun a => a.1 = key ∧ a.2.key = k).map Prod.snd := by
  rw [exact_ofAdds, Entry.find?_pushAll, List.find?_nil, Option.none_or, List.find?_map, List.find?_filter]
  simp only [Function.comp_apply, decide_eq_true_eq]

/-- What is bound to a key is what stands under it. -/
theorem exact_of_mem_toList {p : Postings} {key : String} {entries : List Entry} (h : (key, entries) ∈ p.toList) :
    p.exact key = entries := by
  rw [exact, SortedMap.get?_eq_some_iff.2 h]
  rfl

/-- A key is bound exactly if something was put under it. -/
theorem mem_keys_ofAdds {adds : List (String × Entry)} {key : String} :
    key ∈ (ofAdds adds).keys ↔ ∃ e, (key, e) ∈ adds := by
  induction adds using List.reverseRecOn with
  | nil => simp [ofAdds, SortedMap.keys, EmptyCollection.emptyCollection, SortedMap.empty]
  | append_singleton adds a ih =>
    obtain ⟨other, f⟩ := a
    rw [ofAdds_concat, add, SortedMap.mem_keys_alter, ih]
    simp only [List.mem_append, List.mem_singleton, Prod.mk.injEq]
    constructor
    · rintro (rfl | ⟨e, he⟩)
      · exact ⟨f, .inr ⟨rfl, rfl⟩⟩
      · exact ⟨e, .inl he⟩
    · rintro ⟨e, he | ⟨rfl, -⟩⟩
      · exact .inr ⟨e, he⟩
      · exact .inl rfl

/-- What stands under a key is bound to it. -/
theorem mem_toList_of_mem_exact {p : Postings} {key : String} {e : Entry} (h : e ∈ p.exact key) :
    (key, p.exact key) ∈ p.toList := by
  rw [← SortedMap.get?_eq_some_iff]
  cases hp : p.get? key with
  | none => simp [exact, hp] at h
  | some entries => simp [exact, hp]

end Postings

namespace Index

/-- The index of entries that are inserted under a text one after the other. -/
def ofInserts (inserts : List (String × Entry)) : Index := inserts.foldl (fun i x => i.insert x.1 x.2) ∅

theorem ofInserts_concat (inserts : List (String × Entry)) (text : String) (e : Entry) :
    ofInserts (inserts ++ [(text, e)]) = (ofInserts inserts).insert text e := by
  rw [ofInserts, List.foldl_append]
  rfl

/-- **Each word of a text is a place for the entry.** -/
theorem words_ofInserts (inserts : List (String × Entry)) :
    (ofInserts inserts).words =
      .ofAdds (inserts.flatMap fun x => (Text.distinctWords x.1).map fun word => (word, x.2)) := by
  induction inserts using List.reverseRecOn with
  | nil => rfl
  | append_singleton inserts x ih =>
    rw [ofInserts_concat, insert, Postings.addWords, ih, List.flatMap_append, List.flatMap_singleton, Postings.ofAdds,
      Postings.ofAdds, List.foldl_append, List.foldl_map]

/-- **Each text in lower case is a place for the entry.** -/
theorem texts_ofInserts (inserts : List (String × Entry)) :
    (ofInserts inserts).texts = .ofAdds (inserts.map fun x => (Text.lower x.1, x.2)) := by
  induction inserts using List.reverseRecOn with
  | nil => rfl
  | append_singleton inserts x ih =>
    rw [ofInserts_concat, insert, Postings.addText, ih, List.map_append, List.map_singleton, Postings.ofAdds_concat]

/-- Under a text in lower case the first entry with a key is found that was inserted under such a text. -/
theorem find?_texts_exact (inserts : List (String × Entry)) (key : String) (k : Entry.Key) :
    ((ofInserts inserts).texts.exact key).find? (fun e => e.key = k) =
      (inserts.find? fun x => Text.lower x.1 = key ∧ x.2.key = k).map Prod.snd := by
  rw [texts_ofInserts, Postings.find?_exact_ofAdds, List.find?_map, Option.map_map]
  rfl

/-- An entry that is put under each word of a text is found where the text has the word. -/
theorem find?_distinctWords (text : String) (e : Entry) (word : String) (k : Entry.Key) :
    ((Text.distinctWords text).map fun w => (w, e)).find? (fun a => a.1 = word ∧ a.2.key = k) =
      if word ∈ Text.distinctWords text ∧ e.key = k then some (word, e) else none := by
  split
  · next h =>
    have hsome : (((Text.distinctWords text).map fun w => (w, e)).find? fun a => a.1 = word ∧ a.2.key = k).isSome = true :=
      List.find?_isSome.2 ⟨(word, e), List.mem_map_of_mem h.1, by simpa using h.2⟩
    obtain ⟨a, ha⟩ := Option.isSome_iff_exists.1 hsome
    obtain ⟨w, -, rfl⟩ := List.mem_map.1 (List.mem_of_find?_eq_some ha)
    have hword : w = word ∧ e.key = k := by simpa using List.find?_some ha
    rw [ha, hword.1]
  · next h =>
    rw [List.find?_eq_none]
    rintro a ha hfound
    obtain ⟨w, hw, rfl⟩ := List.mem_map.1 ha
    obtain ⟨rfl, hkey⟩ : w = word ∧ e.key = k := by simpa using hfound
    exact h ⟨hw, hkey⟩

/-- Under a word the first entry with a key is found that was inserted under a text with the word. -/
theorem find?_words_exact (inserts : List (String × Entry)) (word : String) (k : Entry.Key) :
    ((ofInserts inserts).words.exact word).find? (fun e => e.key = k) =
      (inserts.find? fun x => word ∈ Text.distinctWords x.1 ∧ x.2.key = k).map Prod.snd := by
  rw [words_ofInserts, Postings.find?_exact_ofAdds]
  induction inserts with
  | nil => rfl
  | cons x rest ih =>
    rw [List.flatMap_cons, List.find?_append, find?_distinctWords, Option.map_or, ih]
    split
    · next h =>
      rw [List.find?_cons_of_pos (by simpa using h)]
      rfl
    · next h =>
      rw [List.find?_cons_of_neg (by simpa using h)]
      rfl

/-- An entry stands under the lower case of the texts that it was inserted under. -/
theorem mem_texts_exact {inserts : List (String × Entry)} {key : String} {e : Entry} (h : e ∈ (ofInserts inserts).texts.exact key) :
    ∃ text, (text, e) ∈ inserts ∧ key = Text.lower text := by
  rw [texts_ofInserts] at h
  obtain ⟨x, hx, heq⟩ := List.mem_map.1 (Postings.mem_exact_ofAdds h)
  cases heq
  exact ⟨x.1, hx, rfl⟩

/-- A key stands under a text in lower case if an entry with the key was inserted under it. -/
theorem mem_keys_texts_exact {inserts : List (String × Entry)} {key : String} {k : Entry.Key} :
    k ∈ ((ofInserts inserts).texts.exact key).map Entry.key ↔ ∃ x ∈ inserts, x.2.key = k ∧ key = Text.lower x.1 := by
  rw [texts_ofInserts, Postings.mem_keys_exact_ofAdds]
  constructor
  · rintro ⟨e, he, rfl⟩
    obtain ⟨x, hx, heq⟩ := List.mem_map.1 he
    cases heq
    exact ⟨x, hx, rfl, rfl⟩
  · rintro ⟨x, hx, rfl, rfl⟩
    exact ⟨x.2, List.mem_map_of_mem hx, rfl⟩

end Index

end Suggest
