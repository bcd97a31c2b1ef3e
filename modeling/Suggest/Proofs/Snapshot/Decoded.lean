/-
# Decoded snapshots are written again

What is decoded out of a document is as regular as what comes of inserted entries, in whichever form the document is
(`regular_of_decode`): its nodes have been checked to be a tree, and the names in what was read ascend.  The nodes of a nested
document are laid out in a list with their entries, nothing added and nothing lost (`Trie.Nested.map_bare_layOut`).  So a
decoded snapshot that is written is read back exactly if it survives (`decode_encode_of_decode`).  Not every one does:

| decoded | written | read again |
| --- | --- | --- |
| a score beyond the numbers of 32 bits | `null` | refused |
| metadata nested as deep as an old document has room for | inside more containers | refused, if these are too many |
| a number that its decimals do not bring back | those decimals | another number |
| an object with the reserved name in front | that object | refused, or what is embedded in it |
-/

import Suggest.Proofs.Json.Fields
import Suggest.Proofs.Snapshot.RoundTrip

namespace Suggest

open Json

/-- The names in the metadata of an entry that is read ascend. -/
theorem Entry.yields_reader : Entry.reader.Yields Entry.Ordered := by
  refine Fields.yields_record ?_
  rintro ⟨id, text, category, score, metadata, ⟨⟩⟩ ⟨-, -, -, -, hmetadata, -⟩ m rfl
  have hmembers := hmetadata.of_defaulted Reader.yields_value.sortedMap.optional (fun _ h => nomatch h)
  exact Value.ordered_object.2 ⟨m.ordered, hmembers m rfl⟩

theorem Entry.yields_list : (Reader.list Entry.reader).Yields fun entries => ∀ e ∈ entries, e.Ordered :=
  Entry.yields_reader.list

theorem Postings.not_stores_empty (e : Entry) : ¬(∅ : Postings).Stores e := by
  rintro ⟨b, hb, -⟩
  cases hb

theorem Postings.survives_empty (room : Nat) : (∅ : Postings).Survives room :=
  ⟨fun h => (nomatch h), fun e he => absurd he (not_stores_empty e)⟩

theorem Postings.yields_reader : Postings.reader.Yields fun p => ∀ e, p.Stores e → e.Ordered := by
  rintro d p hread e ⟨b, hb, he⟩
  exact Entry.yields_list.sortedMap d p hread b hb e he

namespace Trie

theorem Node.yields_reader : Node.reader.Yields fun n => ∀ e ∈ n.entries, e.Ordered := by
  refine Fields.yields_record ?_
  rintro ⟨children, terminal, entries, frequency, ⟨⟩⟩ ⟨-, -, hentries, -⟩
  exact hentries.of_defaulted Entry.yields_list fun _ he => nomatch he

namespace Nested

mutual

/-- The nodes that a nested node is laid out as, without their children. -/
def bare : Nested → List Node
  | .node children terminal entries frequency => ⟨∅, terminal, entries, frequency⟩ :: bareOfChildren children

/-- The nodes that children are laid out as, without their children. -/
def bareOfChildren : List (Char × Nested) → List Node
  | [] => []
  | (_, n) :: rest => bareOfChildren rest ++ n.bare

end

theorem mem_bareOfChildren {children : List (Char × Nested)} {m : Node} :
    m ∈ bareOfChildren children ↔ ∃ b ∈ children, m ∈ b.2.bare := by
  induction children with
  | nil => simp [bareOfChildren]
  | cons b rest ih =>
    rw [bareOfChildren, List.mem_append, ih]
    simp [or_comm]

theorem map_bare_link (nodes : Array Node) (parent : Option (Nat × Char)) :
    (link nodes parent).toList.map Node.bare = nodes.toList.map Node.bare := by
  cases parent with
  | none => rfl
  | some parent =>
    refine List.ext_getElem (by simp [link]) fun k hk hk' => ?_
    simp only [List.getElem_map, Array.getElem_toList, link, Array.getElem_modify]
    split <;> rfl

mutual

/-- **A nested node is laid out node by node,** nothing lost and nothing added. -/
theorem map_bare_layOut (nodes : Array Node) (parent : Option (Nat × Char)) :
    ∀ n : Nested, (layOut nodes parent n).toList.map Node.bare = nodes.toList.map Node.bare ++ n.bare
  | .node children terminal entries frequency => by
    rw [layOut, map_bare_layOutChildren _ _ children, map_bare_link, Array.toList_push, List.map_append,
      List.append_assoc]
    rfl

theorem map_bare_layOutChildren (nodes : Array Node) (place : Nat) :
    ∀ children : List (Char × Nested),
      (layOutChildren nodes place children).toList.map Node.bare = nodes.toList.map Node.bare ++ bareOfChildren children
  | [] => by rw [layOutChildren, bareOfChildren, List.append_nil]
  | (c, n) :: rest => by
    rw [layOutChildren, map_bare_layOut _ _ n, map_bare_layOutChildren _ _ rest, bareOfChildren, List.append_assoc]

end

/-- Whether the names in the metadata of all entries inside a nested node ascend. -/
def Ordered (n : Nested) : Prop := ∀ m ∈ n.bare, ∀ e ∈ m.entries, e.Ordered

theorem yields_reader (depth : Nat) : (reader depth).Yields Ordered := by
  induction depth with
  | zero => exact fun _ _ h => nomatch h
  | succ depth ih =>
    refine Fields.yields_record ?_
    rintro ⟨children, terminal, entries, frequency, ⟨⟩⟩ ⟨hchildren, -, hentries, -⟩ m hm e he
    rw [bare] at hm
    rcases List.mem_cons.1 hm with rfl | hm
    · exact hentries.of_defaulted Entry.yields_list (fun _ he => nomatch he) e he
    · obtain ⟨b, hb, hm⟩ := mem_bareOfChildren.1 hm
      exact hchildren.of_defaulted ih.characterMap (fun _ hb => nomatch hb) b hb m hm e he

/-- The entries of the trie that a nested node is the root of are those inside it. -/
theorem Ordered.of_toTrie {n : Nested} (h : n.Ordered) {t : Trie} (ht : n.toTrie = .ok t) :
    ∀ m ∈ t.nodes.toList, ∀ e ∈ m.entries, e.Ordered := by
  intro m hm e he
  have hbare : m.bare ∈ t.nodes.toList.map Node.bare := List.mem_map_of_mem hm
  rw [nodes_of_ofNodes ht, map_bare_layOut, List.map_nil, List.nil_append] at hbare
  exact h m.bare hbare e he

end Nested
end Trie

namespace Snapshot

/-- What is read out of a document with indexes has what its parts have. -/
theorem yields_partsReader {α : Type} {trie : Reader α} {P : α → Prop} (h : trie.Yields P) :
    (partsReader trie).Yields fun parts =>
      P parts.trie ∧ (∀ e, parts.words.Stores e → e.Ordered) ∧ ∀ e, parts.texts.Stores e → e.Ordered := by
  have hnone (e : Entry) (he : (∅ : Postings).Stores e) : e.Ordered := absurd he (Postings.not_stores_empty e)
  refine Fields.yields_record ?_
  rintro ⟨t, words, texts, ⟨⟩⟩ ⟨htrie, hwords, htexts, -⟩
  exact ⟨htrie.of_required h, hwords.of_defaulted Postings.yields_reader hnone,
    htexts.of_defaulted Postings.yields_reader hnone⟩

theorem yields_nodesReader : nodesReader.Yields fun nodes => ∀ n ∈ nodes, ∀ e ∈ n.entries, e.Ordered := by
  refine Fields.yields_record ?_
  rintro ⟨nodes, ⟨⟩⟩ ⟨hnodes, -⟩
  exact hnodes.of_required Trie.Node.yields_reader.list

/-- What the entries at the nodes have, and those of the postings, all stored entries have. -/
theorem ordered_of_stores {t : Trie} {words texts : Postings} (hnodes : ∀ n ∈ t.nodes.toList, ∀ e ∈ n.entries, e.Ordered)
    (hwords : ∀ e, words.Stores e → e.Ordered) (htexts : ∀ e, texts.Stores e → e.Ordered) :
    ∀ e, (Index.mk t words texts).Stores e → e.Ordered := by
  rintro e (⟨n, hn, he⟩ | he | he)
  · exact hnodes n hn e he
  · exact hwords e he
  · exact htexts e he

/-- **What a document describes is a tree of entries in whose metadata the names ascend,** whatever its form. -/
theorem tree_and_ordered_of_ofForm {v : Value} {form : Form} {i : Index} (h : ofForm v form = .ok i) :
    Trie.IsTree i.trie.nodes ∧ ∀ e, i.Stores e → e.Ordered := by
  have htree {nodes : Array Trie.Node} {t : Trie} (ht : trieOf (Trie.ofNodes nodes) = .ok t) : Trie.IsTree t.nodes := by
    have ht := mapError_eq_ok.1 ht
    rw [Trie.nodes_of_ofNodes ht]
    exact Trie.isTree_of_ofNodes ht
  have hnested {n : Trie.Nested} (hn : n.Ordered) {t : Trie} (ht : trieOf n.toTrie = .ok t) :
      ∀ m ∈ t.nodes.toList, ∀ e ∈ m.entries, e.Ordered := hn.of_toTrie (mapError_eq_ok.1 ht)
  have hnone (e : Entry) (he : (∅ : Postings).Stores e) : e.Ordered := absurd he (Postings.not_stores_empty e)
  -- one case for each form that is read, the last one for those that are not
  unfold ofForm at h
  split at h
  · obtain ⟨root, hroot, t, ht, heq⟩ := by simpa only [bind_eq_ok] using h
    cases heq
    have hroot := Trie.Nested.yields_reader _ _ _ (mapError_eq_ok.1 hroot)
    exact ⟨htree ht, ordered_of_stores (hnested hroot ht) hnone hnone⟩
  · obtain ⟨parts, hparts, t, ht, heq⟩ := by simpa only [bind_eq_ok] using h
    cases heq
    obtain ⟨hroot, -, -⟩ := yields_partsReader (Trie.Nested.yields_reader _) _ _ (mapError_eq_ok.1 hparts)
    exact ⟨htree ht, ordered_of_stores (hnested hroot ht) hnone hnone⟩
  · obtain ⟨parts, hparts, t, ht, heq⟩ := by simpa only [bind_eq_ok] using h
    cases heq
    obtain ⟨hroot, hwords, htexts⟩ := yields_partsReader (Trie.Nested.yields_reader _) _ _ (mapError_eq_ok.1 hparts)
    exact ⟨htree ht, ordered_of_stores (hnested hroot ht) hwords htexts⟩
  · obtain ⟨parts, hparts, t, ht, heq⟩ := by simpa only [bind_eq_ok] using h
    cases heq
    obtain ⟨hnodes, hwords, htexts⟩ := yields_partsReader yields_nodesReader _ _ (mapError_eq_ok.1 hparts)
    have hnodes : ∀ n ∈ t.nodes.toList, ∀ e ∈ n.entries, e.Ordered := by
      rwa [Trie.nodes_of_ofNodes (mapError_eq_ok.1 ht), List.toList_toArray]
    exact ⟨htree ht, ordered_of_stores hnodes hwords htexts⟩
  · cases h

/-- A decoded snapshot is as regular as one of inserted entries. -/
theorem regular_of_decode {bytes : Bytes} {form : Form} {i : Index} (h : decode bytes = .ok (form, i))
    (hsize : i.trie.nodes.size ≤ Reader.maxWord + 1) : i.Regular := by
  simp only [decode, bind_eq_ok, pure_eq_ok, Prod.mk.injEq] at h
  obtain ⟨v, -, form, -, j, hj, -, rfl⟩ := h
  obtain ⟨htree, hordered⟩ := tree_and_ordered_of_ofForm hj
  exact ⟨htree, hsize, hordered⟩

/-- What is written is in the newest version. -/
theorem form_of_decode_encode {i j : Index} {form : Form} (h : decode (Text.bytes (encode i)) = .ok (form, j)) :
    form = .version 3 := by
  simp only [decode, ofBytes_encode, bind_eq_ok, mapError_eq_ok, pure_eq_ok, Prod.mk.injEq] at h
  obtain ⟨v, hv, other, hother, k, -, rfl, -⟩ := h
  obtain ⟨nodes, words, texts, -, -, -, rfl⟩ := Index.value_draft_eq_ok.1 hv
  exact Except.ok.inj (hother.symm.trans (Index.formOf_documentValue ..))

theorem exists_decode_encode_iff {i : Index} (h : i.Regular) :
    (∃ form, decode (Text.bytes (encode i)) = .ok (form, i)) ↔ i.Survives := by
  rw [← decode_encode_iff_survives h]
  constructor
  · rintro ⟨form, hform⟩
    exact form_of_decode_encode hform ▸ hform
  · exact fun hdecode => ⟨_, hdecode⟩

/-- **A decoded snapshot that is written is read back exactly if it survives,** in whichever form it was decoded.  There may be
no more nodes than 64 bits can count. -/
theorem decode_encode_of_decode {bytes : Bytes} {form : Form} {i : Index} (h : decode bytes = .ok (form, i))
    (hsize : i.trie.nodes.size ≤ Reader.maxWord + 1) :
    (∃ other, decode (Text.bytes (encode i)) = .ok (other, i)) ↔ i.Survives :=
  exists_decode_encode_iff (regular_of_decode h hsize)

/-- An entry with a number and a list in its metadata. -/
def tagged (id text : String) : Entry :=
  { id, text, category := "part", score := .ofNat 2,
    metadata := some (.ofList [("pages", .ofNat 12), ("tags", .array [.string "x", .null])]) }

theorem survives_tagged (id text : String) {room : Nat} (hroom : 2 ≤ room) : (tagged id text).Survives room := by
  constructor
  · change (numberOf? (Json.single (.ofNat 2))).map Reader.nearestSingle = some (.ofNat 2)
    decide +kernel
  · rintro _ ⟨⟩
    refine ⟨fun n hn => ?_, Nat.le_trans (by decide) hroom, by decide⟩
    rw [List.mem_singleton.1 hn]
    exact readsAs_write ⟨by decide, by decide⟩

/-- A nested document of the second version, with a text at a child of the root and a longer text below it. -/
def taggedDocument : String :=
  Json.text <| Json.object [("format_version", Json.natural 2),
    ("trie", Json.object [("children", Json.object [("a", Json.object [("frequency", Json.natural 3),
      ("is_end_of_word", Json.bool true), ("results", Json.array [(tagged "1" "a").write]),
      ("children", Json.object [("b", Json.object [("is_end_of_word", Json.bool true),
        ("results", Json.array [(tagged "2" "ab").write])])])])])]),
    ("texts", Json.object [("ab", Json.array [(tagged "2" "ab").write])])]

/-- The index of that document. -/
def taggedIndex : Index where
  trie := ⟨#[{ children := .ofList [('a', 1)] },
    { children := .ofList [('b', 2)], terminal := true, entries := [tagged "1" "a"], frequency := 3 },
    { terminal := true, entries := [tagged "2" "ab"] }], by simp⟩
  texts := .ofList [("ab", [tagged "2" "ab"])]

/-- The document is written again in the newest version, with its nodes, its metadata and its postings. -/
theorem decode_encode_taggedIndex :
    decode (Text.bytes taggedDocument) = .ok (.version 2, taggedIndex) ∧
      taggedIndex.trie.nodes.size ≤ Reader.maxWord + 1 ∧
      ∃ other, decode (Text.bytes (encode taggedIndex)) = .ok (other, taggedIndex) := by
  have hdecode : decode (Text.bytes taggedDocument) = .ok (.version 2, taggedIndex) := by
    rw [taggedDocument, bytes_text]
    decide +kernel
  have hsize : taggedIndex.trie.nodes.size ≤ Reader.maxWord + 1 := by decide
  have hnodes : ∀ n ∈ taggedIndex.trie.nodes.toList, ∀ e ∈ n.entries, e = tagged e.id e.text := by decide +kernel
  have htexts : ∀ b ∈ taggedIndex.texts.toList, ∀ e ∈ b.2, e = tagged e.id e.text := by decide +kernel
  refine ⟨hdecode, hsize, (decode_encode_of_decode hdecode hsize).2 ⟨fun n hn e he => ?_, Postings.survives_empty _, ⟨?_, ?_⟩⟩⟩
  · rw [hnodes n hn e he]
    exact survives_tagged _ _ (by decide)
  · decide
  · rintro e ⟨b, hb, he⟩
    rw [htexts b hb e he]
    exact survives_tagged _ _ (by decide)

/-- A nested document of one node with one entry, which has the given score. -/
def scoredDocument (score : String) : String :=
  Json.text <| Json.object [("results", Json.array [Json.object [("id", Json.string "1"), ("text", Json.string "a"),
    ("category", Json.string "item"), ("score", score.toList)]])]

/-- The index of a single node with one entry, which has the given score. -/
def scored (score : Single) : Index :=
  { trie := ⟨#[{ entries := [{ id := "1", text := "a", category := "item", score }] }], by simp⟩ }

/-- A document with a score beyond the numbers of 32 bits is not: its score is read as infinite and written as `null`. -/
theorem decode_encode_scored_infinite_ne :
    decode (Text.bytes (scoredDocument "1e39")) = .ok (.untagged, scored (.infinite false)) ∧
      ¬∃ other, decode (Text.bytes (encode (scored (.infinite false)))) = .ok (other, scored (.infinite false)) := by
  have hdecode : decode (Text.bytes (scoredDocument "1e39")) = .ok (.untagged, scored (.infinite false)) := by
    rw [scoredDocument, bytes_text]
    decide +kernel
  refine ⟨hdecode, fun hagain => ?_⟩
  have hsurvives := (exists_decode_encode_iff (regular_of_decode hdecode (by decide))).1 hagain
  have hscore := (hsurvives.nodes _ (List.mem_singleton_self _) _ (List.mem_singleton_self _)).score
  exact absurd hscore (by decide +kernel)

end Snapshot
end Suggest
