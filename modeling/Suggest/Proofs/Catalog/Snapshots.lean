/-
# The snapshot of a catalog is read back

The entries of a catalog have the score one, and their metadata are texts under names of the program's own, so nothing is
embedded in them and all of them come back (`Catalog.storable_of_mem_entries`).  There are fewer nodes than characters in
the text of an index (`Snapshot.size_le_length_encode`), so 64 bits count the nodes if they count the bytes.
-/

import Suggest.Catalog.Indexing
import Suggest.Proofs.Snapshot.RoundTrip

namespace Suggest

open Json

namespace Json

theorem length_le_length_separated {parts : List (List Char)} {part : List Char} (h : part ∈ parts) :
    part.length ≤ (separated parts).length := by
  induction parts with
  | nil => cases h
  | cons p rest ih =>
    cases rest with
    | nil => exact Nat.le_of_eq (by rw [List.mem_singleton.1 h, separated])
    | cons q rest =>
      rw [separated_cons_cons, List.length_append, List.length_cons]
      rcases List.mem_cons.1 h with rfl | h
      · omega
      · have := ih h
        omega

/-- Parts that are not empty take at least a character each. -/
theorem length_le_length_separated_of_ne_nil {parts : List (List Char)} (h : ∀ part ∈ parts, part ≠ []) :
    parts.length ≤ (separated parts).length := by
  induction parts with
  | nil => exact Nat.zero_le _
  | cons p rest ih =>
    have hp := List.length_pos_iff.2 (h p (by simp))
    cases rest with
    | nil =>
      rw [separated]
      exact hp
    | cons q rest =>
      have := ih fun part hpart => h part (by simp [hpart])
      rw [separated_cons_cons, List.length_append, List.length_cons]
      simp only [List.length_cons] at this ⊢
      omega

theorem length_le_length_array {parts : List (List Char)} (h : ∀ part ∈ parts, part ≠ []) :
    parts.length ≤ (array parts).length := by
  have := length_le_length_separated_of_ne_nil h
  rw [array, List.length_cons, List.length_append]
  omega

theorem length_le_length_object {members : List (String × List Char)} {name : String} {value : List Char}
    (h : (name, value) ∈ members) : value.length ≤ (object members).length := by
  have hpart := length_le_length_separated (List.mem_map_of_mem (f := fun m => member m.1 m.2) h)
  have hmember : value.length ≤ (member name value).length := by
    rw [member, List.length_append, List.length_cons]
    omega
  rw [object, List.length_cons, List.length_append]
  have := Nat.le_trans hmember hpart
  omega

end Json

namespace Text

theorem length_le_length_bytes (text : String) : text.toList.length ≤ (bytes text).length := by
  rw [bytes, utf8]
  induction text.toList with
  | nil => exact Nat.zero_le _
  | cons c rest ih =>
    have : 0 < (String.utf8EncodeChar c).length := by
      rw [String.length_utf8EncodeChar]
      exact c.utf8Size_pos
    rw [List.flatMap_cons, List.length_append, List.length_cons]
    omega

end Text

namespace Snapshot

/-- **There are no more nodes than bytes in a snapshot.** -/
theorem size_le_length_encode (i : Index) : i.trie.nodes.size ≤ (Text.bytes (encode i)).length := by
  have harray : i.trie.nodes.size ≤ (array (i.trie.nodes.toList.map Trie.Node.write)).length := by
    have hparts : ∀ part ∈ i.trie.nodes.toList.map Trie.Node.write, part ≠ [] := by
      intro part hpart
      obtain ⟨n, -, rfl⟩ := List.mem_map.1 hpart
      simp [Trie.Node.write, object]
    simpa using length_le_length_array hparts
  have htrie : (array (i.trie.nodes.toList.map Trie.Node.write)).length ≤
      (object [("nodes", array (i.trie.nodes.toList.map Trie.Node.write))]).length :=
    length_le_length_object (List.mem_singleton_self _)
  have hwrite : (object [("nodes", array (i.trie.nodes.toList.map Trie.Node.write))]).length ≤ (write i).length :=
    length_le_length_object (List.mem_cons_of_mem _ List.mem_cons_self)
  have hbytes := Text.length_le_length_bytes (encode i)
  rw [encode, Json.text, String.toList_ofList] at hbytes
  exact Nat.le_trans harray (Nat.le_trans htrie (Nat.le_trans hwrite hbytes))

end Snapshot

namespace Catalog

/-- Whether metadata are nothing but texts, or nothing at all, under names of which none is the reserved one. -/
def Plain (metadata : List (String × Value)) : Prop :=
  ∀ b ∈ metadata, b.1 ≠ embeddedName ∧ (b.2 = .null ∨ ∃ s, b.2 = .string s)

theorem labelValue_eq (label : Option String) : labelValue label = .null ∨ ∃ s, labelValue label = .string s := by
  cases label with
  | none => exact .inl rfl
  | some s => exact .inr ⟨s, rfl⟩

theorem Plain.numbers {metadata : List (String × Value)} (h : Plain metadata) :
    (Value.object metadata).numbers = [] := by
  rw [Value.numbers, List.eq_nil_iff_forall_not_mem]
  intro n hn
  obtain ⟨b, hb, hn⟩ := mem_numbersOfMembers.1 hn
  rcases (h b hb).2 with hv | ⟨s, hv⟩ <;> rw [hv] at hn <;> cases hn

theorem Plain.objects {metadata : List (String × Value)} (h : Plain metadata) :
    (Value.object metadata).objects = [metadata] := by
  rw [Value.objects, List.cons_eq_cons, List.eq_nil_iff_forall_not_mem]
  refine ⟨rfl, fun ms hms => ?_⟩
  obtain ⟨b, hb, hms⟩ := mem_objectsOfMembers.1 hms
  rcases (h b hb).2 with hv | ⟨s, hv⟩ <;> rw [hv] at hms <;> cases hms

theorem Plain.depth {metadata : List (String × Value)} (h : Plain metadata) : depthOfMembers metadata = 0 := by
  induction metadata with
  | nil => rfl
  | cons b rest ih =>
    obtain ⟨name, v⟩ := b
    have hv : v.depth = 0 := by
      rcases (h (name, v) (by simp)).2 with hv | ⟨s, hv⟩ <;> simp only at hv <;> rw [hv] <;> simp [Value.depth]
    rw [depthOfMembers, hv, ih fun b hb => h b (by simp [hb])]
    rfl

theorem readsBack_one : (numberOf? (Json.single Binary.one)).map Reader.nearestSingle = some Binary.one := by
  decide +kernel

/-- An entry with plain metadata comes back out of a snapshot. -/
theorem storable_of_plain {id text category : String} {metadata : List (String × Value)} (h : Plain metadata) :
    (Entry.Storable { id, text, category, metadata := some (.ofList metadata) }) ∧
      ¬(Entry.Embeds { id, text, category, metadata := some (.ofList metadata) }) := by
  have hplain : Plain (SortedMap.ofList metadata).toList := fun b hb => h b (SortedMap.mem_of_mem_toList_ofList hb)
  refine ⟨⟨readsBack_one, ?_, ?_⟩, ?_⟩
  · rintro _ ⟨⟩
    refine ⟨fun n hn => ?_, fun ms hms => ?_⟩
    · rw [hplain.numbers] at hn
      cases hn
    · rw [hplain.objects, List.mem_singleton] at hms
      rw [hms]
      exact SortedMap.ordered _
  · rintro _ ⟨⟩
    rw [hplain.depth]
    exact Nat.zero_le _
  · rintro ⟨_, ⟨⟩, ms, hms, hreserved⟩
    rw [hplain.objects, List.mem_singleton] at hms
    rw [hms] at hreserved
    obtain ⟨b, hb, hname⟩ := List.mem_map.1 (List.mem_of_head? hreserved)
    exact (hplain b hb).1 hname

theorem mem_fieldEntry {id text category : String} {metadata : List (String × Value)} {e : Entry}
    (h : e ∈ fieldEntry id text category metadata) :
    text ≠ "" ∧ e = { id, text, category, metadata := some (.ofList metadata) } := by
  rw [fieldEntry] at h
  split at h
  · cases h
  · next htext => exact ⟨by simpa using htext, List.mem_singleton.1 h⟩

theorem storable_of_mem_fieldEntry {id text category : String} {metadata : List (String × Value)}
    (hplain : Plain metadata) {e : Entry} (h : e ∈ fieldEntry id text category metadata) : e.Storable ∧ ¬e.Embeds := by
  rw [(mem_fieldEntry h).2]
  exact storable_of_plain hplain

/-- **The entries of a catalog come back out of a snapshot.** -/
theorem storable_of_mem_entries {rs : Records} {e : Entry} (h : e ∈ rs.entries) : e.Storable ∧ ¬e.Embeds := by
  rcases List.mem_append.1 h with h | h
  · obtain ⟨i, -, h⟩ := List.mem_flatMap.1 h
    rcases List.mem_append.1 h with h | h <;>
      exact storable_of_mem_fieldEntry (by simp [Plain, embeddedName, labelValue_eq]) h
  · obtain ⟨p, -, h⟩ := List.mem_flatMap.1 h
    rcases List.mem_append.1 h with h | h <;>
      exact storable_of_mem_fieldEntry (by simp [Plain, embeddedName, Part.parent]) h

theorem index_eq_ofInserts (rs : Records) : rs.index = .ofInserts (rs.entries.map fun e => (e.text, e)) := by
  rw [Records.index, Index.ofInserts, List.foldl_map]

/-- **The snapshot of a catalog is read back,** if its length fits 64 bits. -/
theorem decode_encode_index {rs : Records} (h : (Text.bytes (Snapshot.encode rs.index)).length < 1 <<< 64) :
    Snapshot.decode (Text.bytes (Snapshot.encode rs.index)) = .ok (.version 3, rs.index) := by
  have hsize := Snapshot.size_le_length_encode rs.index
  have hfits : rs.index.trie.nodes.size ≤ Reader.maxWord + 1 := by
    rw [Reader.maxWord]
    omega
  have hinserts : ∀ x ∈ rs.entries.map fun e => (e.text, e), x.2.Storable ∧ ¬x.2.Embeds := by
    intro x hx
    obtain ⟨e, he, rfl⟩ := List.mem_map.1 hx
    exact storable_of_mem_entries he
  rw [index_eq_ofInserts] at hfits ⊢
  refine (Snapshot.decode_encode_iff (Snapshot.sound_ofInserts (fun x hx => (hinserts x hx).1) hfits)).2 fun e he => ?_
  obtain ⟨text, hmem⟩ := Snapshot.exists_of_stores_ofInserts he
  exact (hinserts _ hmem).2

end Catalog
end Suggest
