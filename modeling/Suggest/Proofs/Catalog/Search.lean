/-
# Searching a catalog both ways

If no two items of a catalog have one identifier, and no two parts, its entries have keys of their own
(`nodup_keys_entries`), because the category of an entry tells the field that it comes from.  All of them have the score one,
so what is shown of fresh entries holds of a catalog (`hybridSearch?_index`).
-/

import Mathlib.Data.List.Flatten
import Suggest.Proofs.Catalog.Snapshots
import Suggest.Proofs.Index.Hybrid

namespace Suggest
namespace Catalog

theorem keys_fieldEntry (id text category : String) (metadata : List (String × Json.Value)) :
    ((fieldEntry id text category metadata).map Entry.key).Sublist [⟨id, category⟩] := by
  rw [fieldEntry]
  split
  · exact List.nil_sublist _
  · exact List.Sublist.refl _

theorem keys_entries (rs : Records) : (rs.entries.map Entry.key).Sublist
    ((rs.items.map fun i => i.id).flatMap (fun id => [⟨id, "item"⟩, ⟨id, "item-key"⟩]) ++
      (rs.parts.map fun p => p.id).flatMap fun id => [⟨id, "part"⟩, ⟨id, "part-key"⟩]) := by
  rw [Records.entries, List.map_append, List.map_flatMap, List.map_flatMap, List.flatMap_map, List.flatMap_map]
  refine List.Sublist.append (List.Sublist.flatMap_right _ fun i _ => ?_) (List.Sublist.flatMap_right _ fun p _ => ?_)
  · rw [Item.entries, List.map_append]
    exact (keys_fieldEntry i.id i.name "item" _).append (keys_fieldEntry i.id i.slug "item-key" _)
  · rw [Part.entries, List.map_append]
    exact (keys_fieldEntry p.id p.name "part" _).append (keys_fieldEntry p.id p.code "part-key" _)

/-- Identifiers of their own make keys of their own, in two categories. -/
theorem nodup_keys_of_ids {ids : List String} (h : ids.Nodup) {category other : String} (hne : category ≠ other) :
    (ids.flatMap fun id => [(⟨id, category⟩ : Entry.Key), ⟨id, other⟩]).Nodup := by
  refine List.nodup_flatMap.2 ⟨fun id _ => by simp [hne], h.imp fun {a b} hab k ha hb => ?_⟩
  simp only [List.mem_cons, List.not_mem_nil, or_false] at ha hb
  rcases ha with rfl | rfl <;> rcases hb with hb | hb <;> exact hab (congrArg Entry.Key.id hb)

/-- **The entries of a catalog have keys of their own.** -/
theorem nodup_keys_entries {rs : Records} (hitems : (rs.items.map fun i => i.id).Nodup)
    (hparts : (rs.parts.map fun p => p.id).Nodup) : (rs.entries.map Entry.key).Nodup := by
  refine List.Nodup.sublist (keys_entries rs) (List.nodup_append.2 ⟨?_, ?_, ?_⟩)
  · exact nodup_keys_of_ids hitems (by decide)
  · exact nodup_keys_of_ids hparts (by decide)
  · rintro k hk l hl rfl
    simp only [List.mem_flatMap, List.mem_cons, List.not_mem_nil, or_false] at hk hl
    obtain ⟨a, -, rfl | rfl⟩ := hk <;> obtain ⟨b, -, hl | hl⟩ := hl <;>
      exact absurd (congrArg Entry.Key.category hl) (by simp)

/-- An entry of a catalog has the score one. -/
theorem score_of_mem_entries {rs : Records} {e : Entry} (h : e ∈ rs.entries) : e.score = .one := by
  have hfield : ∀ {id text category metadata}, e ∈ fieldEntry id text category metadata → e.score = .one := by
    intro id text category metadata h
    rw [(mem_fieldEntry h).2]
  rcases List.mem_append.1 h with h | h <;> obtain ⟨r, -, h⟩ := List.mem_flatMap.1 h <;>
    exact (List.mem_append.1 h).elim hfield hfield

theorem fresh_entries {rs : Records} (hitems : (rs.items.map fun i => i.id).Nodup)
    (hparts : (rs.parts.map fun p => p.id).Nodup) (hshort : ∀ e ∈ rs.entries, (Text.lower e.text).length < 2 ^ 64) :
    Index.Fresh (rs.entries.map fun e => (e.text, e)) where
  distinct := by
    rw [List.map_map]
    exact nodup_keys_entries hitems hparts
  scored x hx := by
    obtain ⟨e, he, rfl⟩ := List.mem_map.1 hx
    exact score_of_mem_entries he
  short x hx := by
    obtain ⟨e, he, rfl⟩ := List.mem_map.1 hx
    exact hshort e he

/-- **A hybrid search of a catalog finds the fields that match the query,** no more than allowed, each once, with the score as
its only difference from the entry of the field, and all of them if they are fewer than allowed.  It has no answer exactly
if there is no room for as many entries as allowed.  (The lengths of the fields must fit 64 bits.) -/
theorem hybridSearch?_index {rs : Records} (hitems : (rs.items.map fun i => i.id).Nodup)
    (hparts : (rs.parts.map fun p => p.id).Nodup) (hshort : ∀ e ∈ rs.entries, (Text.lower e.text).length < 2 ^ 64)
    {query : String} (hquery : query ≠ "") {limit : Nat} (hlimit : 1 ≤ limit) (preferPrefix : Bool)
    (ranking : Ranking) :
    (Entry.maxRoom < limit → rs.index.hybridSearch? query limit preferPrefix ranking = none) ∧
    (limit ≤ Entry.maxRoom → ∃ found, rs.index.hybridSearch? query limit preferPrefix ranking = some found ∧
      found.length ≤ limit ∧ (found.map Entry.key).Nodup ∧
      (∀ e ∈ found, ∃ f ∈ rs.entries, Index.Matches query f.text ∧ e = { f with score := e.score }) ∧
      (found.length < limit → ∀ f ∈ rs.entries, Index.Matches query f.text →
        ∃ e ∈ found, e = { f with score := e.score })) := by
  refine ⟨fun hroom => Index.hybridSearch?_of_maxRoom_lt _ _ hroom _ _, fun hroom => ?_⟩
  have hfresh := fresh_entries hitems hparts hshort
  obtain ⟨found, hfound, hlength, hall⟩ := hfresh.findsAll_hybridSearch? hquery hlimit hroom preferPrefix ranking
  rw [← index_eq_ofInserts] at hfound
  have hsound : ∀ e ∈ found, ∃ f ∈ rs.entries, Index.Matches query f.text ∧ e = { f with score := e.score } := by
    intro e he
    obtain ⟨x, hx, hmatches, heq⟩ := hall.sound e he
    obtain ⟨f, hf, rfl⟩ := List.mem_map.1 hx
    exact ⟨f, hf, hmatches, heq⟩
  refine ⟨found, hfound, hlength, hall.distinct, hsound, fun hless f hf hmatches => ?_⟩
  obtain ⟨e, he, hkey⟩ := List.mem_map.1 (hall.complete hless (f.text, f) (List.mem_map_of_mem hf) hmatches)
  obtain ⟨g, hg, -, heq⟩ := hsound e he
  have hsame : g = f := List.inj_on_of_nodup_map (nodup_keys_entries hitems hparts) hg hf (by rw [← hkey, heq]; rfl)
  exact ⟨e, he, hsame ▸ heq⟩

/-- A catalog in which a query of two words begins a name, stands inside another, and has its words apart in a third one.  There
is also a code that does not match it. -/
def redFoxes : Records where
  items := [{ id := "1", name := "Red fox den", slug := "bear" }, { id := "2", name := "fox, red" }]
  parts := [{ id := "1", name := "big red fox", parentId := "2" }]

/-- The three names are found, and nothing else. -/
theorem hybridSearch?_redFoxes : ∃ found, redFoxes.index.hybridSearch? "red fox" 10 true {} = some found ∧
    ∀ k, k ∈ found.map Entry.key ↔ k ∈ [⟨"1", "item"⟩, ⟨"2", "item"⟩, (⟨"1", "part"⟩ : Entry.Key)] := by
  have hitems : (redFoxes.items.map fun i => i.id).Nodup := by decide
  have hparts : (redFoxes.parts.map fun p => p.id).Nodup := by decide
  have hshort : ∀ e ∈ redFoxes.entries, (Text.lower e.text).length < 2 ^ 64 := by decide +kernel
  obtain ⟨found, hfound, -, hdistinct, hsound, hcomplete⟩ :=
    (hybridSearch?_index hitems hparts hshort (by decide : "red fox" ≠ "") (by decide : 1 ≤ 10) true {}).2 (by decide)
  have hmatching : ∀ f ∈ redFoxes.entries, Index.Matches "red fox" f.text ↔
      f.key ∈ [⟨"1", "item"⟩, ⟨"2", "item"⟩, (⟨"1", "part"⟩ : Entry.Key)] := by
    unfold Index.Matches Index.HasWords
    decide +kernel
  have hkeys : redFoxes.entries.map Entry.key = [⟨"1", "item"⟩, ⟨"1", "item-key"⟩, ⟨"2", "item"⟩, ⟨"1", "part"⟩] := by
    decide +kernel
  have hfields : ∀ k ∈ found.map Entry.key, ∃ f ∈ redFoxes.entries, Index.Matches "red fox" f.text ∧ f.key = k := by
    intro k hk
    obtain ⟨e, he, rfl⟩ := List.mem_map.1 hk
    obtain ⟨f, hf, hmatches, heq⟩ := hsound e he
    exact ⟨f, hf, hmatches, by rw [heq]; rfl⟩
  have hless : found.length < 10 := by
    have hsubset : found.map Entry.key ⊆ redFoxes.entries.map Entry.key := fun k hk =>
      have ⟨f, hf, _, hkey⟩ := hfields k hk
      List.mem_map.2 ⟨f, hf, hkey⟩
    have hlength := (List.subperm_of_subset hdistinct hsubset).length_le
    rw [hkeys, List.length_map] at hlength
    exact Nat.lt_of_le_of_lt hlength (by decide)
  refine ⟨found, hfound, fun k => ⟨fun hk => ?_, fun hk => ?_⟩⟩
  · obtain ⟨f, hf, hmatches, rfl⟩ := hfields k hk
    exact (hmatching f hf).1 hmatches
  · obtain ⟨f, hf, rfl⟩ : ∃ f ∈ redFoxes.entries, f.key = k := by
      have hsublist : [⟨"1", "item"⟩, ⟨"2", "item"⟩, (⟨"1", "part"⟩ : Entry.Key)] ⊆ redFoxes.entries.map Entry.key := by
        rw [hkeys]
        decide
      exact List.mem_map.1 (hsublist hk)
    obtain ⟨e, he, heq⟩ := hcomplete hless f hf ((hmatching f hf).2 hk)
    exact List.mem_map.2 ⟨e, he, by rw [heq]; rfl⟩

/-- A catalog with one item. -/
def oneItem : Records where
  items := [{ id := "1", name := "ab" }]

/-- There is no answer if the limit has 64 bits. -/
theorem hybridSearch?_oneItem_eq_none :
    oneItem.index.hybridSearch? "ab" (1 <<< 63) true {} = none ∧ Index.Matches "ab" "ab" :=
  ⟨Index.hybridSearch?_of_maxRoom_lt _ _ (by decide) _ _, .inl (List.infix_refl _)⟩

end Catalog
end Suggest
