/-
# Snapshots are read back

The text of an index is taken apart into its draft (`Index.spells_write`), the draft is read as a value, and the value as an
index, both of them part by part.  The nodes come back as a tree that makes up the same trie, and the postings come back
since their keys are in order.  So a snapshot is read back exactly if it survives, which is a matter of what is stored in it
(`decode_encode_iff_survives`).

| part | read back |
| --- | --- |
| children, terminal flags, frequencies | always, if the nodes can be counted with 64 bits |
| keys of the postings | if the reserved name is not the least of them |
| entries | as far as `Entry.rereads_iff` says |

The keys of inserted entries are never the reserved name.  So a snapshot of entries that can be stored is read back exactly if
nothing is embedded in their metadata (`decode_encode_iff`, `decode_encode_ofInserts_iff`).
-/

import Suggest.Proofs.Index.Postings
import Suggest.Proofs.Snapshot.Nodes
import Suggest.Proofs.Text.Lower
import Suggest.Proofs.Trie.Paths
import Suggest.Snapshot

namespace Suggest

open Json

namespace Postings

/-- The draft of postings. -/
def draft (p : Postings) : Draft := .ofMembers (p.toList.map fun b => (b.1, Entry.draftAll b.2))

/-- Whether an entry stands in the postings. -/
def Stores (p : Postings) (e : Entry) : Prop := ∃ b ∈ p.toList, e ∈ b.2

/-- Whether postings come back when they are written and their text is read where so many containers may be entered from
inside an entry: its entries survive, and the reserved name is not in front. -/
structure Survives (p : Postings) (room : Nat) : Prop where
  names : ¬Reserved p.keys
  entries : ∀ e, p.Stores e → e.Survives room

theorem spells_write (p : Postings) : Spells p.write p.draft :=
  spells_map fun b _ => Entry.spells_writeAll b.2

/-- The reserved name is not in front of postings that are read, since there is no text under it. -/
theorem not_reserved_of_value {p : Postings} {r : Reading} (hr : r.embedded.isSome) {v : Value}
    (h : p.draft.value r = .ok v) : ¬Reserved p.keys := by
  intro hreserved
  obtain ⟨d, text, hsingle, htext⟩ := exists_text_of_reserved hr (by rwa [List.map_map]) h
  obtain ⟨b, -, hb⟩ := List.map_eq_singleton_iff.1 hsingle
  obtain rfl : Entry.draftAll b.2 = d := congrArg Prod.snd hb
  cases htext

/-- **Postings are read again exactly if they survive.** -/
theorem rereads_iff {p : Postings} (h : ∀ e, p.Stores e → e.Ordered) (documents room : Nat) :
    Rereads reader (.nested documents (room + 3)) p.draft p ↔ p.Survives room := by
  have hnames : (p.toList.map fun b => (b.1, Entry.draftAll b.2)).map Prod.fst = p.keys := by
    rw [List.map_map]
    rfl
  have hparts (hreserved : ¬Reserved p.keys) : Rereads reader (.nested documents (room + 3)) p.draft p ↔
      ∀ b ∈ p.toList, ∀ e ∈ b.2, e.Survives room := by
    rw [reader, draft, rereads_sortedMap_iff (Reading.inside_nested documents (room + 2)) (hnames ▸ hreserved)
      (hnames ▸ p.ordered), List.forall₂_map_left_iff, List.forall₂_same]
    refine forall₂_congr fun b hb => ?_
    rw [Entry.rereads_list_iff (fun e he => h e ⟨b, hb, he⟩) documents room]
    exact and_iff_right rfl
  constructor
  · intro hread
    obtain ⟨v, hv, -⟩ := id hread
    have hreserved := not_reserved_of_value rfl hv
    refine ⟨hreserved, ?_⟩
    rintro e ⟨b, hb, he⟩
    exact (hparts hreserved).1 hread b hb e he
  · rintro ⟨hreserved, hentries⟩
    exact (hparts hreserved).2 fun b hb e he => hentries e ⟨b, hb, he⟩

end Postings

namespace Index

/-- The draft of the nodes of a trie. -/
def nodesDraft (t : Trie) : Draft := .array (t.nodes.toList.map Trie.Node.draft) none

/-- The draft of an index. -/
def draft (i : Index) : Draft :=
  .ofMembers [
    (Snapshot.versionTag, .number ⟨.ok (.integer Snapshot.newest), none⟩),
    ("trie", .ofMembers [("nodes", nodesDraft i.trie)]),
    ("tokens", i.words.draft),
    ("texts", i.texts.draft)]

/-- Whether an entry is stored anywhere in the index. -/
def Stores (i : Index) (e : Entry) : Prop :=
  (∃ n ∈ i.trie.nodes.toList, e ∈ n.entries) ∨ i.words.Stores e ∨ i.texts.Stores e

/-- What an index must be like to be written and read again, apart from what is embedded in its entries. -/
structure Sound (i : Index) : Prop where
  storable : ∀ e, i.Stores e → e.Storable
  tree : Trie.IsTree i.trie.nodes
  countable : i.trie.nodes.size ≤ Reader.maxWord + 1
  words : embeddedName ∉ i.words.keys
  texts : embeddedName ∉ i.texts.keys

/-- What an index is like that comes of inserted entries or of a document: its nodes are a tree, which 64 bits can count, and
the names in the metadata of its entries ascend. -/
structure Regular (i : Index) : Prop where
  tree : Trie.IsTree i.trie.nodes
  countable : i.trie.nodes.size ≤ Reader.maxWord + 1
  ordered : ∀ e, i.Stores e → e.Ordered

/-- Whether an index comes back when it is written and its text is read.  An entry at a node is inside six containers, and one
of the postings inside four. -/
structure Survives (i : Index) : Prop where
  nodes : ∀ n ∈ i.trie.nodes.toList, ∀ e ∈ n.entries, e.Survives (Document.maxDepth - 6)
  words : i.words.Survives (Document.maxDepth - 4)
  texts : i.texts.Survives (Document.maxDepth - 4)

theorem Sound.regular {i : Index} (h : i.Sound) : i.Regular where
  tree := h.tree
  countable := h.countable
  ordered e he := (h.storable e he).ordered

/-- An index whose entries can be stored survives exactly if nothing is embedded in them. -/
theorem Sound.survives_iff {i : Index} (h : i.Sound) : i.Survives ↔ ∀ e, i.Stores e → ¬e.Embeds := by
  have hnodes {e : Entry} (he : i.Stores e) : e.Survives (Document.maxDepth - 6) ↔ ¬e.Embeds :=
    (h.storable e he).survives_iff (by decide)
  have hkeys {e : Entry} (he : i.Stores e) : e.Survives (Document.maxDepth - 4) ↔ ¬e.Embeds :=
    (h.storable e he).survives_iff (by decide)
  constructor
  · rintro hsurvives e (⟨n, hn, he⟩ | he | he)
    · exact (hnodes (.inl ⟨n, hn, he⟩)).1 (hsurvives.nodes n hn e he)
    · exact (hkeys (.inr (.inl he))).1 (hsurvives.words.entries e he)
    · exact (hkeys (.inr (.inr he))).1 (hsurvives.texts.entries e he)
  · intro hplain
    refine ⟨fun n hn e he => ?_, ⟨fun hr => h.words (List.mem_of_head? hr), fun e he => ?_⟩,
      ⟨fun hr => h.texts (List.mem_of_head? hr), fun e he => ?_⟩⟩
    · exact (hnodes (.inl ⟨n, hn, he⟩)).2 (hplain e (.inl ⟨n, hn, he⟩))
    · exact (hkeys (.inr (.inl he))).2 (hplain e (.inr (.inl he)))
    · exact (hkeys (.inr (.inr he))).2 (hplain e (.inr (.inr he)))

theorem Regular.addressed {i : Index} (h : i.Regular) {n : Trie.Node} (hn : n ∈ i.trie.nodes.toList) : n.Addressed := by
  intro k hk
  obtain ⟨place, hplace, rfl⟩ := List.mem_iff_getElem.1 hn
  rw [Array.length_toList] at hplace
  obtain ⟨c, hc⟩ := (Trie.mem_values_iff (Array.getElem?_eq_getElem hplace)).1 hk
  have := (h.tree.forward hc).2
  have := h.countable
  omega

/-- The text of an index is scanned as its draft. -/
theorem spells_write (i : Index) : Spells (Snapshot.write i) i.draft := by
  have hnodes : Spells (array (i.trie.nodes.toList.map Trie.Node.write)) (nodesDraft i.trie) :=
    spells_array fun n _ => Trie.Node.spells_write n
  have htrie : Spells (object [("nodes", array (i.trie.nodes.toList.map Trie.Node.write))])
      (.ofMembers [("nodes", nodesDraft i.trie)]) := spells_ofMembers (.cons ⟨rfl, hnodes⟩ .nil)
  have hversion : ReadsAs (natural Snapshot.newest) (.integer Snapshot.newest) := readsAs_natural (by decide)
  exact spells_ofMembers <| .cons ⟨rfl, spells_number hversion⟩ <| .cons ⟨rfl, htrie⟩ <|
    .cons ⟨rfl, Postings.spells_write i.words⟩ <| .cons ⟨rfl, Postings.spells_write i.texts⟩ .nil

/-- The value of a document in the newest version. -/
def documentValue (nodes words texts : Value) : Value :=
  .object [("format_version", .number (.integer Snapshot.newest)), ("texts", texts), ("tokens", words),
    ("trie", .object [("nodes", nodes)])]

/-- The part of the document for the trie has a value if its nodes have one. -/
theorem value_trie_eq_ok {t : Trie} {documents room : Nat} {w : Value} :
    (Draft.ofMembers [("nodes", nodesDraft t)]).value (.nested documents (room + 1)) = .ok w ↔
      ∃ nodes, (nodesDraft t).value (.nested documents room) = .ok nodes ∧ w = .object [("nodes", nodes)] := by
  rw [value_ofMembers (Reading.inside_nested documents room) (by simp [Reserved, embeddedName])]
  cases hn : (nodesDraft t).value (.nested documents room) with
  | error fault => simp [Except.map, bind, Except.bind, hn]
  | ok nodes =>
    have hsorted : (SortedMap.ofList [("nodes", nodes)]).toList = [("nodes", nodes)] := rfl
    simp only [List.mapM_cons, List.mapM_nil, Except.map, bind, Except.bind, pure, Except.pure, hsorted, hn,
      Except.ok.injEq, exists_eq_left']
    exact eq_comm

/-- **The document of an index has a value if its parts have one.** -/
theorem value_draft_eq_ok {i : Index} {documents room : Nat} {v : Value} :
    i.draft.value (.nested documents (room + 2)) = .ok v ↔
      ∃ nodes words texts, (nodesDraft i.trie).value (.nested documents room) = .ok nodes ∧
        i.words.draft.value (.nested documents (room + 1)) = .ok words ∧
        i.texts.draft.value (.nested documents (room + 1)) = .ok texts ∧ v = documentValue nodes words texts := by
  rw [draft, value_ofMembers (Reading.inside_nested documents (room + 1))
    (by simp [Reserved, embeddedName, Snapshot.versionTag])]
  cases ht : (Draft.ofMembers [("nodes", nodesDraft i.trie)]).value (.nested documents (room + 1)) with
  | error fault =>
    have hnodes : ∀ nodes, (nodesDraft i.trie).value (.nested documents room) ≠ .ok nodes := fun nodes hn => by
      cases ht.symm.trans (value_trie_eq_ok.2 ⟨nodes, hn, rfl⟩)
    simp [Draft.value, Except.map, bind, Except.bind, ht, hnodes]
  | ok w =>
    obtain ⟨nodes, hnodes, rfl⟩ := value_trie_eq_ok.1 ht
    cases hw : i.words.draft.value (.nested documents (room + 1)) with
    | error fault => simp [Draft.value, Except.map, bind, Except.bind, ht, hw]
    | ok words =>
      cases hx : i.texts.draft.value (.nested documents (room + 1)) with
      | error fault => simp [Draft.value, Except.map, bind, Except.bind, ht, hw, hx]
      | ok texts =>
        have hsorted : (SortedMap.ofList [("format_version", .number (.integer Snapshot.newest)),
            ("trie", .object [("nodes", nodes)]), ("tokens", words), ("texts", texts)]).toList =
            [("format_version", .number (.integer Snapshot.newest)), ("texts", texts), ("tokens", words),
              ("trie", .object [("nodes", nodes)])] := by
          simp only [SortedMap.toList_ofList_eq_foldl, List.foldl_cons, List.foldl_nil, SortedMap.alterList,
            String.reduceLT, String.reduceEq, ↓reduceIte]
        simp only [List.mapM_cons, List.mapM_nil, Draft.value, Except.map, bind, Except.bind, pure, Except.pure, ht, hw,
          hx, hsorted, hnodes, documentValue, Snapshot.versionTag, Except.ok.injEq]
        constructor
        · rintro rfl
          exact ⟨nodes, words, texts, rfl, rfl, rfl, rfl⟩
        · rintro ⟨_, _, _, rfl, rfl, rfl, rfl⟩
          rfl

theorem formOf_documentValue (nodes words texts : Value) :
    Snapshot.formOf (documentValue nodes words texts) = .ok (.version 3) := by
  simp [Snapshot.formOf, documentValue, Value.member?, Snapshot.versionTag, Snapshot.newest]

theorem ofValue_parts {nodes words texts : Value} {parts : Snapshot.Parts (List Trie.Node)} :
    (Snapshot.partsReader Snapshot.nodesReader).ofValue (documentValue nodes words texts) = .ok parts ↔
      (Reader.list Trie.Node.reader).ofValue nodes = .ok parts.trie ∧ Postings.reader.ofValue words = .ok parts.words ∧
        Postings.reader.ofValue texts = .ok parts.texts := by
  have hnodes : (Reader.list Trie.Node.reader).ofValue nodes = Reader.list Trie.Node.reader .value nodes.draft := rfl
  have hwords : Postings.reader.ofValue words = Postings.reader .value words.draft := rfl
  have htexts : Postings.reader.ofValue texts = Postings.reader .value texts.draft := rfl
  obtain ⟨ns, ws, ts⟩ := parts
  rw [hnodes, hwords, htexts]
  cases hn : Reader.list Trie.Node.reader .value nodes.draft <;>
    cases hw : Postings.reader .value words.draft <;>
    cases ht : Postings.reader .value texts.draft <;>
    simp [Snapshot.partsReader, Snapshot.nodesReader, documentValue, Reader.ofValue, Fields.record, Fields.read,
      Value.draft, draftMembers, Fields.placeMembers, Fields.vacant, Fields.place, Fields.complete, Draft.name,
      Draft.ofText, bind, Except.bind, pure, Except.pure, Field.required, Field.defaulted, Except.map, hn, hw, ht, proceed,
      Reading.inside_value, Draft.skip]

theorem ofForm_documentValue {nodes words texts : Value} {i : Index} :
    Snapshot.ofForm (documentValue nodes words texts) (.version 3) = .ok i ↔
      ∃ ns, (Reader.list Trie.Node.reader).ofValue nodes = .ok ns ∧ Postings.reader.ofValue words = .ok i.words ∧
        Postings.reader.ofValue texts = .ok i.texts ∧ Trie.ofNodes ns.toArray = .ok i.trie := by
  simp only [Snapshot.ofForm, bind_eq_ok, Snapshot.ofValue, mapError_eq_ok, ofValue_parts, Snapshot.trieOf]
  constructor
  · rintro ⟨parts, ⟨hnodes, hwords, htexts⟩, trie, htrie, hi⟩
    cases hi
    exact ⟨parts.trie, hnodes, hwords, htexts, htrie⟩
  · rintro ⟨ns, hnodes, hwords, htexts, htrie⟩
    exact ⟨⟨ns, i.words, i.texts⟩, ⟨hnodes, hwords, htexts⟩, i.trie, htrie, rfl⟩

/-- The nodes of a trie are read again exactly if their entries survive. -/
theorem rereads_nodes_iff {i : Index} (h : i.Regular) (documents room : Nat) :
    Rereads (.list Trie.Node.reader) (.nested documents (room + 4)) (nodesDraft i.trie) i.trie.nodes.toList ↔
      ∀ n ∈ i.trie.nodes.toList, ∀ e ∈ n.entries, e.Survives room := by
  rw [nodesDraft, rereads_list_iff (Reading.inside_nested documents (room + 3)), List.forall₂_map_left_iff,
    List.forall₂_same]
  exact forall₂_congr fun n hn =>
    Trie.Node.rereads_iff (h.addressed hn) (fun e he => h.ordered e (.inl ⟨n, hn, he⟩)) documents room

/-- **An index is read again exactly if it survives.** -/
theorem exists_ofForm_iff {i : Index} (h : i.Regular) (documents : Nat) :
    (∃ v, i.draft.value (.nested documents Document.maxDepth) = .ok v ∧ Snapshot.formOf v = .ok (.version 3) ∧
        Snapshot.ofForm v (.version 3) = .ok i) ↔ i.Survives := by
  have hnodes := rereads_nodes_iff h documents (Document.maxDepth - 6)
  have hwords := Postings.rereads_iff (fun e he => h.ordered e (.inr (.inl he))) documents (Document.maxDepth - 4)
  have htexts := Postings.rereads_iff (fun e he => h.ordered e (.inr (.inr he))) documents (Document.maxDepth - 4)
  constructor
  · rintro ⟨v, hv, -, hi⟩
    obtain ⟨nodes, words, texts, hn, hw, ht, rfl⟩ := value_draft_eq_ok.1 hv
    obtain ⟨ns, hns, hws, hts, htrie⟩ := ofForm_documentValue.1 hi
    have hnodesEq : ns = i.trie.nodes.toList := by rw [Trie.nodes_of_ofNodes htrie]
    exact ⟨hnodes.1 ⟨nodes, hn, hnodesEq ▸ hns⟩, hwords.1 ⟨words, hw, hws⟩, htexts.1 ⟨texts, ht, hts⟩⟩
  · intro hsurvives
    obtain ⟨nodes, hn, hns⟩ := hnodes.2 hsurvives.nodes
    obtain ⟨words, hw, hws⟩ := hwords.2 hsurvives.words
    obtain ⟨texts, ht, hts⟩ := htexts.2 hsurvives.texts
    exact ⟨_, value_draft_eq_ok.2 ⟨nodes, words, texts, hn, hw, ht, rfl⟩, formOf_documentValue _ _ _,
      ofForm_documentValue.2 ⟨_, hns, hws, hts, h.tree.ofNodes_eq_ok⟩⟩

end Index

namespace Snapshot

/-- The bytes of what is written. -/
theorem bytes_text (written : List Char) : Text.bytes (Json.text written) = Text.utf8 written := by
  rw [Json.text, Text.bytes, String.toList_ofList]

/-- The bytes of a text are read as the value of its draft. -/
theorem ofBytes_text {cs : List Char} {d : Draft} (h : Spells cs d) :
    Json.Value.ofBytes (Text.bytes (Json.text cs)) = d.value (.nested cs.length Document.maxDepth) := by
  have hglyphs : Text.glyphs (Text.bytes (Json.text cs)) = cs.map .char := by
    rw [bytes_text, Text.glyphs_utf8]
  rw [Json.Value.ofBytes, hglyphs, Json.Value.ofGlyphs, List.length_map, Json.Value.ofNested, h.scan, Json.Document.read]
  change (d.value (.nested cs.length Document.maxDepth) >>= fun v => _) = _
  cases d.value (.nested cs.length Document.maxDepth) <;> rfl

/-- The bytes of a snapshot are read as the value of its draft. -/
theorem ofBytes_encode (i : Index) :
    Json.Value.ofBytes (Text.bytes (encode i)) = i.draft.value (.nested (write i).length Document.maxDepth) :=
  ofBytes_text (Index.spells_write i)

/-- **A snapshot is read back exactly if it survives.** -/
theorem decode_encode_iff_survives {i : Index} (h : i.Regular) :
    decode (Text.bytes (encode i)) = .ok (.version 3, i) ↔ i.Survives := by
  rw [← Index.exists_ofForm_iff h (write i).length, decode, ofBytes_encode]
  simp only [bind_eq_ok, mapError_eq_ok, pure_eq_ok, Prod.mk.injEq]
  constructor
  · rintro ⟨v, hv, form, hform, j, hj, rfl, rfl⟩
    exact ⟨v, hv, hform, hj⟩
  · rintro ⟨v, hv, hform, hj⟩
    exact ⟨v, hv, _, hform, i, hj, rfl, rfl⟩

/-- **A snapshot is read back exactly if nothing is embedded in the entries that are stored.** -/
theorem decode_encode_iff {i : Index} (h : i.Sound) :
    decode (Text.bytes (encode i)) = .ok (.version 3, i) ↔ ∀ e, i.Stores e → ¬e.Embeds :=
  (decode_encode_iff_survives h.regular).trans h.survives_iff

/-! ### Indexes of inserted entries -/

theorem exists_of_mem_exact_texts {inserts : List (String × Entry)} {key : String} {e : Entry}
    (h : e ∈ (Index.ofInserts inserts).texts.exact key) : ∃ text, (text, e) ∈ inserts := by
  rw [Index.texts_ofInserts] at h
  obtain ⟨x, hx, heq⟩ := List.mem_map.1 (Postings.mem_exact_ofAdds h)
  cases heq
  exact ⟨x.1, hx⟩

/-- What a node of the trie holds was inserted. -/
theorem exists_of_mem_entries {inserts : List (String × Entry)} {n : Trie.Node}
    (hn : n ∈ (Index.ofInserts inserts).trie.nodes.toList) {e : Entry} (he : e ∈ n.entries) :
    ∃ text, (text, e) ∈ inserts := by
  obtain ⟨p, hp, rfl⟩ := List.mem_iff_getElem.1 hn
  rw [Array.length_toList] at hp
  rw [Array.getElem_toList] at he
  obtain ⟨cs, hcs⟩ := (Trie.isTree_ofInserts inserts).exists_path hp
  have htexts : e ∈ (Index.ofInserts inserts).texts.exact (String.ofList cs) := by
    rw [← Trie.entries_contentAt_ofInserts, Trie.contentAt_of_walk hcs, Array.getD_eq_getD_getElem?, Array.getElem?_eq_getElem hp]
    exact he
  exact exists_of_mem_exact_texts htexts

/-- **What an index stores was inserted.** -/
theorem exists_of_stores_ofInserts {inserts : List (String × Entry)} {e : Entry}
    (h : (Index.ofInserts inserts).Stores e) : ∃ text, (text, e) ∈ inserts := by
  rcases h with ⟨n, hn, he⟩ | h | h
  · exact exists_of_mem_entries hn he
  · obtain ⟨b, hb, he⟩ := h
    rw [Index.words_ofInserts] at hb
    rw [← Postings.exact_of_mem_toList hb] at he
    obtain ⟨x, hx, hword⟩ := List.mem_flatMap.1 (Postings.mem_exact_ofAdds he)
    obtain ⟨word, -, heq⟩ := List.mem_map.1 hword
    cases heq
    exact ⟨x.1, hx⟩
  · obtain ⟨b, hb, he⟩ := h
    rw [← Postings.exact_of_mem_toList hb] at he
    exact exists_of_mem_exact_texts he

/-- The reserved name is no word, since it has a sign in it that words are not made of. -/
theorem embeddedName_not_mem_words (inserts : List (String × Entry)) :
    embeddedName ∉ (Index.ofInserts inserts).words.keys := by
  rw [Index.words_ofInserts, Postings.mem_keys_ofAdds]
  rintro ⟨e, he⟩
  obtain ⟨x, -, hword⟩ := List.mem_flatMap.1 he
  obtain ⟨word, hmem, heq⟩ := List.mem_map.1 hword
  obtain rfl : word = embeddedName := congrArg Prod.fst heq
  have hmem : embeddedName ∈ Text.words x.1 := List.mem_eraseDups.1 hmem
  have hsign := Text.isWordChar_of_mem_words hmem (c := '$') (by decide)
  exact absurd hsign (by decide)

/-- The reserved name is no text in lower case, since it has a capital in it. -/
theorem embeddedName_not_mem_texts (inserts : List (String × Entry)) :
    embeddedName ∉ (Index.ofInserts inserts).texts.keys := by
  rw [Index.texts_ofInserts, Postings.mem_keys_ofAdds]
  rintro ⟨e, he⟩
  obtain ⟨x, -, heq⟩ := List.mem_map.1 he
  have hname : Text.lower x.1 = embeddedName := congrArg Prod.fst heq
  have hcapital : 'R' ∈ (Text.lower x.1).toList := by
    rw [hname]
    decide
  exact Text.not_isCapital_of_mem_lower hcapital (by unfold Text.IsCapital; decide)

theorem sound_ofInserts {inserts : List (String × Entry)} (h : ∀ x ∈ inserts, x.2.Storable)
    (hsize : (Index.ofInserts inserts).trie.nodes.size ≤ Reader.maxWord + 1) : (Index.ofInserts inserts).Sound where
  storable e he := by
    obtain ⟨text, hmem⟩ := exists_of_stores_ofInserts he
    exact h _ hmem
  tree := Trie.isTree_ofInserts inserts
  countable := hsize
  words := embeddedName_not_mem_words inserts
  texts := embeddedName_not_mem_texts inserts

theorem exists_of_stores_singleton {text : String} {e f : Entry} (h : (Index.ofInserts [(text, e)]).Stores f) : f = e := by
  obtain ⟨other, hmem⟩ := exists_of_stores_ofInserts h
  exact congrArg Prod.snd (List.mem_singleton.1 hmem)

theorem stores_singleton (text : String) (e : Entry) : (Index.ofInserts [(text, e)]).Stores e := by
  have hexact : (Index.ofInserts [(text, e)]).texts.exact (Text.lower text) = [e] := by
    rw [Index.texts_ofInserts]
    simp [Postings.ofAdds, Postings.exact, Entry.pushUnique, Entry.occurs]
  exact .inr (.inr ⟨_, Postings.mem_toList_of_mem_exact (by rw [hexact]; exact List.mem_singleton_self e),
    by rw [hexact]; exact List.mem_singleton_self e⟩)

/-- An entry with a number and a text in its metadata, the text under the given name. -/
def labelled (name : String) : Entry :=
  { id := "1", text := "ab", category := "item", metadata := some (.ofList [("a", .ofNat 1), (name, .string "5")]) }

/-- **A snapshot of inserted entries is read back exactly if nothing is embedded in those that are stored.**  The decimals of
all numbers have to bring them back, and there may be no more nodes than 64 bits can count. -/
theorem decode_encode_ofInserts_iff {inserts : List (String × Entry)} (h : ∀ x ∈ inserts, x.2.Storable)
    (hsize : (Index.ofInserts inserts).trie.nodes.size ≤ Reader.maxWord + 1) :
    decode (Text.bytes (encode (Index.ofInserts inserts))) = .ok (.version 3, Index.ofInserts inserts) ↔
      ∀ e, (Index.ofInserts inserts).Stores e → ¬e.Embeds :=
  decode_encode_iff (sound_ofInserts h hsize)

/-- The entry with the name `b` is read back, with its metadata. -/
theorem decode_encode_labelled :
    (∀ x ∈ [("ab", labelled "b")], x.2.Storable) ∧
      (Index.ofInserts [("ab", labelled "b")]).trie.nodes.size ≤ Reader.maxWord + 1 ∧
      decode (Text.bytes (encode (Index.ofInserts [("ab", labelled "b")]))) =
        .ok (.version 3, Index.ofInserts [("ab", labelled "b")]) := by
  have hstorable : ∀ x ∈ [("ab", labelled "b")], x.2.Storable := by
    intro x hx
    rw [List.mem_singleton.1 hx]
    refine ⟨by decide +kernel, ?_, ?_⟩
    · rintro _ ⟨⟩
      exact ⟨by decide, by decide⟩
    · rintro _ ⟨⟩
      decide
  have hsize : (Index.ofInserts [("ab", labelled "b")]).trie.nodes.size ≤ Reader.maxWord + 1 := by decide +kernel
  refine ⟨hstorable, hsize, (decode_encode_ofInserts_iff hstorable hsize).2 fun e he => ?_⟩
  rw [exists_of_stores_singleton he]
  rintro ⟨_, ⟨⟩, hembeds⟩
  exact absurd hembeds (by decide)

/-- The entry with the reserved name is not, although its metadata are nested no deeper. -/
theorem decode_encode_reserved_ne :
    (labelled embeddedName).Storable ∧
      decode (Text.bytes (encode (Index.ofInserts [("ab", labelled embeddedName)]))) ≠
        .ok (.version 3, Index.ofInserts [("ab", labelled embeddedName)]) := by
  have hstorable : (labelled embeddedName).Storable := by
    refine ⟨by decide +kernel, ?_, ?_⟩
    · rintro _ ⟨⟩
      exact ⟨by decide, by decide⟩
    · rintro _ ⟨⟩
      decide
  have hsound : (Index.ofInserts [("ab", labelled embeddedName)]).Sound :=
    sound_ofInserts (fun x hx => List.mem_singleton.1 hx ▸ hstorable) (by decide +kernel)
  refine ⟨hstorable, fun hdecode => ?_⟩
  exact (decode_encode_iff hsound).1 hdecode _ (stores_singleton "ab" _) ⟨_, rfl, by decide⟩

end Snapshot
end Suggest
