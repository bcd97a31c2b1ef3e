/-
# The fields of a catalog

An index of a catalog holds the fields that are not empty, and nothing else.  Each of them is one insertion, so what is reported,
what the fields count up to and what the frequencies of the nodes add up to is one number.  And a field of a record stands under
its text in lower case and under each of its words, as the first record had it that has the same identifier and a field of this
category with the same text, or with the same word (`fields_of_index`).

The table of fields (`Records.fieldsOf`) takes the categories apart, and the entries are the fields of all four, record after
record (`filter_entries`).  No entry of one category keeps one of another from being held, so a category can be looked up alone
(`find?_entries`).
-/

import Suggest.Proofs.Catalog.Snapshots
import Suggest.Proofs.Text.Words
import Suggest.Proofs.Trie.Frequencies

namespace Suggest
namespace Catalog

/-- A field of a record: whose it is, its text, and what is said with it about the rest of the record. -/
structure Field where
  id : String
  text : String
  metadata : List (String × Json.Value)

/-- The fields that belong to a category, in the order of the catalog. -/
def Records.fieldsOf (rs : Records) : String → List Field
  | "item" =>
    rs.items.map fun i => ⟨i.id, i.name, [("slug", .string i.slug), ("category_label", labelValue i.categoryLabel)]⟩
  | "item-key" =>
    rs.items.map fun i => ⟨i.id, i.slug, [("name", .string i.name), ("category_label", labelValue i.categoryLabel)]⟩
  | "part" => rs.parts.map fun p => ⟨p.id, p.name, p.parent ++ [("code", .string p.code)]⟩
  | "part-key" => rs.parts.map fun p => ⟨p.id, p.code, p.parent ++ [("part_name", .string p.name)]⟩
  | _ => []

/-- The entry that a field stands as. -/
def Field.entry (category : String) (f : Field) : Entry :=
  { id := f.id, text := f.text, category, metadata := some (.ofList f.metadata) }

theorem length_fieldEntry (id text category : String) (metadata : List (String × Json.Value)) :
    (fieldEntry id text category metadata).length = if text ≠ "" then 1 else 0 := by
  rw [fieldEntry]
  by_cases htext : text = "" <;> simp [htext]

/-- One field of each record makes as many entries as there are records in which it is not empty. -/
theorem length_flatMap_fieldEntry {α : Type} (records : List α) (id text : α → String) (category : String)
    (metadata : α → List (String × Json.Value)) :
    (records.flatMap fun r => fieldEntry (id r) (text r) category (metadata r)).length =
      records.countP fun r => text r ≠ "" := by
  induction records with
  | nil => rfl
  | cons r rest ih =>
    rw [List.flatMap_cons, List.length_append, ih, length_fieldEntry, List.countP_cons, Nat.add_comm]
    simp only [decide_eq_true_eq]

/-- **There are as many entries as fields that are not empty.** -/
theorem length_entries (rs : Records) :
    rs.entries.length = rs.items.countP (fun i => i.name ≠ "") + rs.items.countP (fun i => i.slug ≠ "") +
      (rs.parts.countP (fun p => p.name ≠ "") + rs.parts.countP fun p => p.code ≠ "") := by
  have hitems : (rs.items.flatMap Item.entries).length = _ := (List.flatMap_append_perm rs.items _ _).symm.length_eq
  have hparts : (rs.parts.flatMap Part.entries).length = _ := (List.flatMap_append_perm rs.parts _ _).symm.length_eq
  rw [Records.entries, List.length_append, hitems, hparts]
  simp only [List.length_append, length_flatMap_fieldEntry]

theorem filter_fieldEntry (id text other category : String) (metadata : List (String × Json.Value)) :
    (fieldEntry id text other metadata).filter (fun e => e.category = category) =
      if other = category then fieldEntry id text category metadata else [] := by
  rw [fieldEntry]
  split <;> split <;> simp_all [fieldEntry]

theorem flatMap_fieldEntry (fields : List Field) (category : String) :
    fields.flatMap (fun f => fieldEntry f.id f.text category f.metadata) =
      (fields.filter fun f => f.text ≠ "").map (Field.entry category) := by
  induction fields with
  | nil => rfl
  | cons f rest ih =>
    rw [List.flatMap_cons, ih, fieldEntry]
    by_cases htext : f.text = ""
    · simp [htext]
    · simp [htext, Field.entry]

/-- **The entries of a category are its fields that are not empty,** in the order of the catalog. -/
theorem filter_entries (rs : Records) (category : String) :
    rs.entries.filter (fun e => e.category = category) =
      ((rs.fieldsOf category).filter fun f => f.text ≠ "").map (Field.entry category) := by
  rw [← flatMap_fieldEntry, Records.entries, List.filter_append, List.filter_flatMap, List.filter_flatMap]
  unfold Records.fieldsOf
  split
  all_goals simp only [Item.entries, Part.entries, List.filter_append, filter_fieldEntry]
  · simp [List.flatMap_map]
  · simp [List.flatMap_map]
  · simp [List.flatMap_map]
  · simp [List.flatMap_map]
  -- no record has a field of another category
  · next hitem hitemKey hpart hpartKey => simp [Ne.symm hitem, Ne.symm hitemKey, Ne.symm hpart, Ne.symm hpartKey]

/-- The first entry of an identifier and a category is the first field of theirs that is not empty. -/
theorem find?_entries (rs : Records) (id category : String) (p : String → Bool) :
    (rs.entries.find? fun e => p e.text ∧ e.key = ⟨id, category⟩) =
      ((rs.fieldsOf category).find? fun f => f.id = id ∧ f.text ≠ "" ∧ p f.text).map (Field.entry category) := by
  -- the category is asked for first, and then what is left of the key and the text
  have hentry : (fun e : Entry => decide (p e.text ∧ e.key = ⟨id, category⟩)) =
      fun e => decide (decide (e.category = category) = true ∧ (decide (e.id = id) && p e.text) = true) := by
    funext e
    rw [decide_eq_decide, Entry.key, Entry.Key.mk.injEq]
    grind
  have hfield : (fun f : Field => decide (f.id = id ∧ f.text ≠ "" ∧ p f.text)) =
      fun f => decide (decide (f.text ≠ "") = true ∧ (decide (f.id = id) && p f.text) = true) := by
    funext f
    grind
  rw [hentry, hfield, ← List.find?_filter, ← List.find?_filter, filter_entries, List.find?_map]
  rfl

/-- **Under a text in lower case stands the first field with such a text.** -/
theorem find?_texts_index (rs : Records) (id category x : String) :
    (rs.index.texts.exact x).find? (fun e => e.key = ⟨id, category⟩) =
      ((rs.fieldsOf category).find? fun f => f.id = id ∧ f.text ≠ "" ∧ Text.lower f.text = x).map
        (Field.entry category) := by
  have hfirst := find?_entries rs id category fun text => Text.lower text = x
  simp only [decide_eq_true_eq] at hfirst
  rw [index_eq_ofInserts, Index.find?_texts_exact, List.find?_map, Option.map_map, ← hfirst]
  exact Option.map_id'

/-- **Under a word stands the first field that has the word.** -/
theorem find?_words_index (rs : Records) (id category word : String) :
    (rs.index.words.exact word).find? (fun e => e.key = ⟨id, category⟩) =
      ((rs.fieldsOf category).find? fun f => f.id = id ∧ f.text ≠ "" ∧ word ∈ Text.words f.text).map
        (Field.entry category) := by
  have hfirst := find?_entries rs id category fun text => word ∈ Text.words text
  simp only [decide_eq_true_eq] at hfirst
  rw [index_eq_ofInserts, Index.find?_words_exact, List.find?_map, Option.map_map, ← hfirst]
  simp only [Text.mem_distinctWords, Function.comp_def]
  exact Option.map_id'

/-- Entries among which a key stands exactly if there is a field of some sort, and then as the first field of the sort. -/
structure HoldsFirst (entries : List Entry) (key : Entry.Key) (fields : List Field) : Prop where
  exists_iff : (∃ e ∈ entries, e.key = key) ↔ ∃ f, f ∈ fields
  first : ∀ e ∈ entries, e.key = key → ∃ f, fields.head? = some f ∧ e = f.entry key.category

theorem holdsFirst_of_find? {entries : List Entry} (hdistinct : (entries.map Entry.key).Nodup) {key : Entry.Key}
    {fields : List Field} {sort : Field → Bool}
    (h : entries.find? (fun e => e.key = key) = (fields.find? sort).map (Field.entry key.category)) :
    HoldsFirst entries key (fields.filter sort) := by
  rw [← List.head?_filter (p := sort)] at h
  constructor
  · have hsome := congrArg Option.isSome h
    rw [Option.isSome_map, Bool.eq_iff_iff, List.find?_isSome, List.isSome_head?, ← List.isEmpty_eq_false_iff,
      List.isEmpty_eq_false_iff_exists_mem] at hsome
    simpa only [decide_eq_true_eq] using hsome
  · rintro e he rfl
    rw [Entry.find?_key_of_mem hdistinct he] at h
    obtain ⟨f, hf, hentry⟩ := Option.map_eq_some_iff.1 h.symm
    exact ⟨f, hf, hentry.symm⟩

/-- **The index of a catalog holds exactly the fields that are not empty.**  Their number is reported, and is what the
frequencies of all nodes add up to, in words of 64 bits and as numbers if words count that far.  Under a text in lower case
stands an identifier of a category exactly if a record with the identifier has such a text in the field of this category, and under
a word exactly if such a record has the word there.  It stands there as the first such record has the field. -/
theorem fields_of_index (rs : Records) :
    rs.report.entries = rs.items.countP (fun i => i.name ≠ "") + rs.items.countP (fun i => i.slug ≠ "") +
      (rs.parts.countP (fun p => p.name ≠ "") + rs.parts.countP fun p => p.code ≠ "") ∧
    Trie.total id rs.index.trie.nodes.toList = .ofNat rs.report.entries ∧
    (rs.report.entries < 2 ^ 64 → Trie.total UInt64.toNat rs.index.trie.nodes.toList = rs.report.entries) ∧
    ∀ id category : String,
      (∀ x, HoldsFirst (rs.index.texts.exact x) ⟨id, category⟩
        ((rs.fieldsOf category).filter fun f => f.id = id ∧ f.text ≠ "" ∧ Text.lower f.text = x)) ∧
      ∀ word, HoldsFirst (rs.index.words.exact word) ⟨id, category⟩
        ((rs.fieldsOf category).filter fun f => f.id = id ∧ f.text ≠ "" ∧ word ∈ Text.words f.text) := by
  have htrie : rs.index.trie = .ofInserts (rs.entries.map fun e => (e.text, e)) := by
    rw [index_eq_ofInserts, Trie.trie_ofInserts]
  have hlength : (rs.entries.map fun e => (e.text, e)).length = rs.report.entries := List.length_map _
  refine ⟨length_entries rs, ?_, fun hfits => ?_, fun id category => ⟨fun x => ?_, fun word => ?_⟩⟩
  · rw [htrie, Trie.total_ofInserts, hlength]
  · rw [← hlength] at hfits
    rw [htrie, Trie.total_toNat_ofInserts hfits, hlength]
  · refine holdsFirst_of_find? ?_ (find?_texts_index rs id category x)
    rw [index_eq_ofInserts, Index.texts_ofInserts]
    exact Postings.nodup_keys_exact_ofAdds _ _
  · refine holdsFirst_of_find? ?_ (find?_words_index rs id category word)
    rw [index_eq_ofInserts, Index.words_ofInserts]
    exact Postings.nodup_keys_exact_ofAdds _ _

/-- Two items with one identifier whose names differ in capitals alone, and a part without a code. -/
def twiceNamed : Records :=
  { items := [{ id := "1", name := "Red Fox", slug := "fox" },
      { id := "1", name := "RED FOX", slug := "", categoryLabel := some "animals" }],
    parts := [{ id := "1", name := "fox tail", code := "", parentId := "1" }] }

theorem fields_of_index_twiceNamed :
    twiceNamed.report.entries < 2 ^ 64 ∧ Trie.total UInt64.toNat twiceNamed.index.trie.nodes.toList = 4 ∧
      (∀ e ∈ twiceNamed.index.texts.exact "red fox", e.key = ⟨"1", "item"⟩ → e.text = "Red Fox") ∧
      (∃ e ∈ twiceNamed.index.words.exact "fox", e.key = ⟨"1", "part"⟩) ∧
      ¬∃ e ∈ twiceNamed.index.words.exact "tail", e.key = ⟨"1", "part-key"⟩ := by
  have hfits : twiceNamed.report.entries < 2 ^ 64 := by decide
  obtain ⟨hreport, -, htotal, hholds⟩ := fields_of_index twiceNamed
  refine ⟨hfits, (htotal hfits).trans (hreport.trans (by decide)), fun e he hkey => ?_, ?_, ?_⟩
  · obtain ⟨f, hf, rfl⟩ := ((hholds "1" "item").1 "red fox").first e he hkey
    have hfirst : (((twiceNamed.fieldsOf "item").filter fun f =>
        f.id = "1" ∧ f.text ≠ "" ∧ Text.lower f.text = "red fox").head?.map Field.text) = some "Red Fox" := by
      decide +kernel
    rw [hf] at hfirst
    exact Option.some.inj hfirst
  · refine ((hholds "1" "part").2 "fox").exists_iff.2 ?_
    have hword : "fox" ∈ Text.words "fox tail" := by decide +kernel
    exact ⟨_, List.mem_filter.2 ⟨List.mem_cons_self, by simpa using hword⟩⟩
  · rw [((hholds "1" "part-key").2 "tail").exists_iff]
    rintro ⟨f, hf⟩
    obtain ⟨hmem, hf⟩ := List.mem_filter.1 hf
    rw [List.mem_singleton.1 hmem] at hf
    simp at hf

end Catalog
end Suggest
