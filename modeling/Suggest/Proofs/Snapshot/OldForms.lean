/-
# Old documents

An old document has nested nodes.  They are read the same however much deeper nodes might be nested (`reader_congr`), and the
children of every node come in order (`yields_sorted`), so they always make up a trie (`Trie.Nested.Sorted.exists_toTrie`).
It does not matter whether the nested node is the whole document or a member of one that says a version
(`decode_oldDocument`), nor which trie with the same nodes at the same paths is searched.  But a document that says a version
nests one container deeper, and that may be one too many (`decode_chain_ne`).
-/

import Suggest.Proofs.Snapshot.Decoded
import Suggest.Proofs.Trie.Nested

namespace Suggest

open Json

namespace Trie.Nested

/-- **The children of every node that is read are in order.** -/
theorem yields_sorted (depth : Nat) : (reader depth).Yields Sorted := by
  induction depth with
  | zero => exact fun _ _ h => nomatch h
  | succ depth ih =>
    refine Fields.yields_record ?_
    rintro ⟨children, terminal, entries, frequency, ⟨⟩⟩ ⟨hchildren, -⟩
    exact sorted_of_children children.ordered
      (hchildren.of_defaulted ih.characterMap fun _ hb => absurd hb List.not_mem_nil)

/-- **Readers for deeper nodes than there are read the same.** -/
theorem reader_congr {v : Value} {depth other : Nat} (hdepth : v.depth < depth) (hother : v.depth < other) :
    (reader depth).ofValue v = (reader other).ofValue v := by
  induction depth generalizing v other with
  | zero => exact absurd hdepth (Nat.not_lt_zero _)
  | succ depth ih =>
    obtain ⟨other, rfl⟩ := Nat.exists_eq_succ_of_ne_zero (Nat.ne_zero_of_lt hother)
    refine Fields.read_cons_congr (.defaulted "children" (.characterMap (reader other)) ∅) fun e he => ?_
    obtain ⟨w, rfl, hw⟩ := exists_of_mem_contents he
    refine Reader.characterMap_congr fun e he => ?_
    obtain ⟨x, rfl, hx⟩ := exists_of_mem_contents he
    exact ih (by omega) (by omega)

/-- Whether a trie has the nodes inside a nested node, at the same paths. -/
def Denotes (t : Trie) (n : Nested) : Prop :=
  ∀ cs, (t.descend? 0 cs).map (fun p => (t.node p).bare) = (n.at? cs).map top

theorem denotes_iff {t : Trie} {n : Nested} : Denotes t n ↔ ∀ cs, bareAt? t.nodes cs = (n.at? cs).map top := by
  simp only [Denotes, descend?_eq_walk]
  rfl

end Trie.Nested

namespace Snapshot

/-- The value of a document of an old form that has a nested node and no indexes. -/
def oldDocument (root : Value) : Form → Value
  | .untagged => root
  | .version n => .object [(versionTag, .ofNat n), ("trie", root)]

/-- The members of a document that says a version are in order. -/
theorem pairwise_oldDocument (v w : Value) : ([(versionTag, v), ("trie", w)].map Prod.fst).Pairwise (· < ·) := by
  have hlt : versionTag < "trie" := by decide
  exact List.pairwise_pair.2 hlt

/-- Whether a nested node can stand in a document of a form. -/
def Old (root : Value) : Form → Prop
  | .untagged => root.member? versionTag = none
  | .version n => n = 1 ∨ n = 2

theorem formOf_oldDocument {root : Value} {form : Form} (h : Old root form) : formOf (oldDocument root form) = .ok form := by
  cases form with
  | untagged => rw [oldDocument, formOf, h]
  | version n => simp [oldDocument, formOf, Value.member?, Value.ofNat]

/-- The nested node of a document that says a version is read, and there are no indexes. -/
theorem ofValue_oldDocument {root : Value} {n : Nat} {reader : Reader Trie.Nested} :
    (partsReader reader).ofValue (oldDocument root (.version n)) = (reader.ofValue root).map fun trie => ⟨trie, ∅, ∅⟩ := by
  have hroot : reader.ofValue root = reader .value root.draft := rfl
  rw [hroot]
  cases h : reader .value root.draft <;>
    simp [partsReader, oldDocument, versionTag, Reader.ofValue, Fields.record, Fields.read, Value.draft, Value.ofNat,
      draftMembers, Fields.placeMembers, Fields.vacant, Fields.place, Fields.complete, Draft.name, Draft.ofText, bind,
      Except.bind, pure, Except.pure, Field.required, Field.defaulted, Field.leftOut, Except.map, h, proceed,
      Reading.inside_value, Draft.skip]

theorem depth_lt_depth_oldDocument (root : Value) (form : Form) :
    root.depth < (oldDocument root form).depth + 1 := by
  cases form with
  | untagged => exact Nat.lt_succ_self _
  | version n =>
    rw [oldDocument, Value.depth, depthOfMembers, depthOfMembers, depthOfMembers]
    omega

/-- **In every old form a nested node is the same trie,** without indexes. -/
theorem ofForm_oldDocument {root : Value} {n : Trie.Nested} (hroot : (nestedReader root).ofValue root = .ok n) {t : Trie}
    (ht : n.toTrie = .ok t) {form : Form} (h : Old root form) :
    ofForm (oldDocument root form) form = .ok { trie := t } := by
  have hread : (nestedReader (oldDocument root form)).ofValue root = .ok n :=
    (Trie.Nested.reader_congr (depth_lt_depth_oldDocument root form) (Nat.lt_succ_self _)).trans hroot
  cases form with
  | untagged => simp [ofForm, ofValue, oldDocument, hroot, trieOf, ht, bind, Except.bind, pure, Except.pure, Except.mapError]
  | version k =>
    have hparts : (partsReader (nestedReader (oldDocument root (.version k)))).ofValue (oldDocument root (.version k)) = _ :=
      ofValue_oldDocument
    rcases h with rfl | rfl <;>
      simp [ofForm, ofValue, hparts, hread, trieOf, ht, bind, Except.bind, pure, Except.pure, Except.mapError, Except.map]

theorem ordered_oldDocument {root : Value} (h : root.Ordered) (form : Form) : (oldDocument root form).Ordered := by
  cases form with
  | untagged => exact h
  | version n =>
    refine Value.ordered_object.2 ⟨pairwise_oldDocument _ _, fun m hm => ?_⟩
    rcases List.mem_cons.1 hm with rfl | hm
    · exact fun ms hms => nomatch hms
    · rw [List.mem_singleton.1 hm]
      exact h

theorem survives_ofNat {n : Nat} (h : n ≤ Numeral.maxSignificand) (room : Nat) : (Value.ofNat n).Survives room where
  numbers m hm := by
    rw [List.mem_singleton.1 hm]
    exact readsAs_write ⟨by omega, by omega⟩
  depth := Nat.zero_le _
  plain := by rintro ⟨ms, hms, -⟩; cases hms

/-- What survives with room for one container less survives inside a document. -/
theorem survives_oldDocument {root : Value} {room : Nat} (h : root.Survives room) {form : Form} (hold : Old root form) :
    (oldDocument root form).Survives (room + 1) := by
  cases form with
  | untagged => exact ⟨h.numbers, Nat.le_succ_of_le h.depth, h.plain⟩
  | version n =>
    refine Value.survives_object (by simp [Reserved, versionTag, embeddedName]) fun m hm => ?_
    rcases List.mem_cons.1 hm with rfl | hm
    · have hsmall : n ≤ Numeral.maxSignificand := by
        rcases hold with rfl | rfl <;> decide
      exact survives_ofNat hsmall room
    · rw [List.mem_singleton.1 hm]
      exact h

/-- **A value is the one of its own text if it survives.** -/
theorem ofBytes_write {v : Value} (hordered : v.Ordered) (h : v.Survives Document.maxDepth) :
    Value.ofBytes (Text.bytes (Json.text v.write)) = .ok v := by
  rw [ofBytes_text (Json.spells_write v)]
  exact (value_written_iff hordered).2 h

/-- An old document is decoded to the trie that its nested node is. -/
theorem decode_of_ofBytes {root : Value} {n : Trie.Nested} (hroot : (nestedReader root).ofValue root = .ok n) {t : Trie}
    (ht : n.toTrie = .ok t) {form : Form} (h : Old root form) {bytes : Bytes}
    (hbytes : Value.ofBytes bytes = .ok (oldDocument root form)) : decode bytes = .ok (form, { trie := t }) := by
  rw [decode, hbytes]
  simp [formOf_oldDocument h, ofForm_oldDocument hroot ht h, bind, Except.bind, pure, Except.pure, Except.mapError]

/-- **An old document is decoded to the nodes that are nested in it,** in whichever form it is.  They make up a trie, one node
for each, with the same at the ends of the same paths; and every trie of which that is so finds the same and has the same
counts. -/
theorem decode_oldDocument {root : Value} {n : Trie.Nested} (hroot : (nestedReader root).ofValue root = .ok n) :
    ∃ t, n.toTrie = .ok t ∧ t.nodes.size = n.size ∧ Trie.Nested.Denotes t n ∧
      (∀ p < t.nodes.size, ∃! cs, t.descend? 0 cs = some p) ∧
      (∀ form bytes, Old root form → Value.ofBytes bytes = .ok (oldDocument root form) →
        decode bytes = .ok (form, { trie := t })) ∧
      (root.Ordered → root.Survives (Document.maxDepth - 1) → ∀ form, Old root form →
        decode (Text.bytes (Json.text (oldDocument root form).write)) = .ok (form, { trie := t })) ∧
      ∀ u : Trie, Trie.ofNodes u.nodes = .ok u → Trie.Nested.Denotes u n →
        u.counts = t.counts ∧ ∀ start limit tieBreak, u.search? start limit tieBreak = t.search? start limit tieBreak := by
  obtain ⟨t, ht, htree, hsize, hbare⟩ := (Trie.Nested.yields_sorted _ _ n hroot).exists_toTrie
  refine ⟨t, ht, hsize, Trie.Nested.denotes_iff.2 hbare, fun p hp => ?_,
    fun form bytes hold hbytes => decode_of_ofBytes hroot ht hold hbytes,
    fun hordered hsurvives form hold => ?_, fun u hu hdenotes => ?_⟩
  · obtain ⟨cs, hcs⟩ := htree.exists_path hp
    simp only [Trie.descend?_eq_walk]
    exact ⟨cs, hcs, fun ds hds => htree.path_unique hds hcs⟩
  · exact decode_of_ofBytes hroot ht hold
      (ofBytes_write (ordered_oldDocument hordered form) (survives_oldDocument hsurvives hold))
  · have hutree := Trie.isTree_of_ofNodes hu
    have hsame : ∀ cs, Trie.bareAt? u.nodes cs = Trie.bareAt? t.nodes cs := fun cs =>
      (Trie.Nested.denotes_iff.1 hdenotes cs).trans (hbare cs).symm
    exact ⟨Trie.counts_eq_of_bareAt? hutree htree hsame, Trie.search?_eq_of_bareAt? hutree htree hsame⟩

/-- A nested node with a child for the letter a, which ends a text. -/
def oneLetter : Value := .object [("children", .object [("a", .object [("is_end_of_word", .bool true)])])]

/-- The nested node with one child is decoded in every old form. -/
theorem decode_oldDocument_oneLetter :
    (nestedReader oneLetter).ofValue oneLetter = .ok (.node [('a', .node [] true [] 0)] false [] 0) ∧
      ∃ t, Trie.Nested.toTrie (.node [('a', .node [] true [] 0)] false [] 0) = .ok t ∧ t.nodes.size = 2 ∧
        ∀ form, Old oneLetter form →
          decode (Text.bytes (Json.text (oldDocument oneLetter form).write)) = .ok (form, { trie := t }) := by
  have hroot : (nestedReader oneLetter).ofValue oneLetter = .ok (.node [('a', .node [] true [] 0)] false [] 0) := rfl
  obtain ⟨t, ht, hsize, -, -, -, hwritten, -⟩ := decode_oldDocument hroot
  have hordered : oneLetter.Ordered := by simp [Value.Ordered, oneLetter, Value.objects, objectsOfMembers]
  have hsurvives : oneLetter.Survives (Document.maxDepth - 1) :=
    ⟨fun m hm => absurd hm List.not_mem_nil, by decide, by decide⟩
  exact ⟨hroot, t, ht, hsize, hwritten hordered hsurvives⟩

/-! ### Chains of nodes -/

/-- A nested node from which a chain of so many nodes hangs. -/
def chain : Nat → Value
  | 0 => .object []
  | n + 1 => .object [("children", .object [("a", chain n)])]

theorem depth_chain (n : Nat) : (chain n).depth = 2 * n + 1 := by
  induction n with
  | zero => rfl
  | succ n ih =>
    simp only [chain, Value.depth, depthOfMembers, ih]
    omega

/-- The value of an object with a single member. -/
theorem value_singleton {r inner : Reading} (h : r.inside = .ok inner) {name : String} (hname : name ≠ embeddedName)
    (d : Draft) : (Draft.ofMembers [(name, d)]).value r = (d.value inner).map fun v => .object [(name, v)] := by
  rw [value_ofMembers h (by simpa [Reserved] using hname)]
  cases hd : d.value inner with
  | error fault => simp [hd, Except.map, bind, Except.bind]
  | ok v =>
    simp [hd, Except.map, bind, Except.bind, pure, Except.pure]
    rfl

/-- **A chain is refused if it is nested deeper than there is room for.** -/
theorem value_chain (n documents room : Nat) :
    (chain n).written.value (.nested documents room) = if 2 * n < room then .ok (chain n) else .error .malformed := by
  induction n generalizing room with
  | zero =>
    cases room with
    | zero => rfl
    | succ room => rfl
  | succ n ih =>
    match room with
    | 0 => rfl
    | 1 => rfl
    | room + 2 =>
      have hsame : 2 * (n + 1) < room + 2 ↔ 2 * n < room := by omega
      have hcons : (chain (n + 1)).written = .ofMembers [("children", .ofMembers [("a", (chain n).written)])] := rfl
      rw [hcons, value_singleton (Reading.inside_nested documents (room + 1)) (by decide),
        value_singleton (Reading.inside_nested documents room) (by decide), ih]
      simp only [hsame]
      split <;> rfl

theorem exists_reader_chain {n depth : Nat} (h : n < depth) :
    ∃ m, (Trie.Nested.reader depth).ofValue (chain n) = .ok m := by
  induction n generalizing depth with
  | zero =>
    obtain ⟨depth, rfl⟩ := Nat.exists_eq_succ_of_ne_zero (Nat.ne_zero_of_lt h)
    exact ⟨_, rfl⟩
  | succ n ih =>
    obtain ⟨depth, rfl⟩ := Nat.exists_eq_succ_of_ne_zero (Nat.ne_zero_of_lt h)
    obtain ⟨m, hm⟩ := ih (Nat.lt_of_succ_lt_succ h)
    rw [Reader.ofValue] at hm
    simp [chain, Trie.Nested.reader, Reader.ofValue, Fields.record, Fields.read, Value.draft, draftMembers,
      Fields.placeMembers, Fields.vacant, Fields.place, Fields.complete, Draft.name, Draft.ofText, bind, Except.bind, pure,
      Except.pure, Field.defaulted, Field.leftOut, Except.map, proceed, Reading.inside_value, Reader.characterMap, Reader.onlyCharacter, hm]

/-- There is room for one node less in a document that says a version. -/
theorem value_versioned_chain (n : Nat) {k : Nat} (hk : k ≤ Numeral.maxSignificand) (documents room : Nat) :
    (oldDocument (chain n) (.version k)).written.value (.nested documents (room + 1)) =
      if 2 * n < room then .ok (oldDocument (chain n) (.version k)) else .error .malformed := by
  have hnumber : (Value.ofNat k).written.value (.nested documents room) = .ok (.ofNat k) :=
    (value_written_iff fun _ hms => absurd hms List.not_mem_nil).2 (survives_ofNat hk room)
  have hmembers : (oldDocument (chain n) (.version k)).written =
      .ofMembers [(versionTag, (Value.ofNat k).written), ("trie", (chain n).written)] := rfl
  have hsorted (v : Value) : (SortedMap.ofList [(versionTag, Value.ofNat k), ("trie", v)]).toList =
      [(versionTag, Value.ofNat k), ("trie", v)] := SortedMap.toList_ofList (pairwise_oldDocument _ v)
  rw [hmembers, value_ofMembers (Reading.inside_nested documents room) (by simp [Reserved, versionTag, embeddedName])]
  simp only [List.mapM_cons, List.mapM_nil, hnumber, value_chain]
  split
  · simp [oldDocument, hsorted, Except.map, bind, Except.bind, pure, Except.pure]
  · rfl

/-- **A nested document that nests as deep as there is room for is decoded,** and refused if it says a version. -/
theorem decode_chain_ne :
    ∃ n t, (nestedReader (chain 63)).ofValue (chain 63) = .ok n ∧ Old (chain 63) .untagged ∧
      decode (Text.bytes (Json.text (oldDocument (chain 63) .untagged).write)) = .ok (.untagged, { trie := t }) ∧
      decode (Text.bytes (Json.text (oldDocument (chain 63) (.version 1)).write)) = .error (.json .malformed) ∧
      decode (Text.bytes (Json.text (oldDocument (chain 63) (.version 2)).write)) = .error (.json .malformed) := by
  obtain ⟨n, hn⟩ : ∃ n, (nestedReader (chain 63)).ofValue (chain 63) = .ok n :=
    exists_reader_chain (by rw [depth_chain]; decide)
  obtain ⟨t, ht, -⟩ := (Trie.Nested.yields_sorted _ _ n hn).exists_toTrie
  have hold : Old (chain 63) .untagged := rfl
  have hrefused {k : Nat} (hk : k ≤ Numeral.maxSignificand) :
      decode (Text.bytes (Json.text (oldDocument (chain 63) (.version k)).write)) = .error (.json .malformed) := by
    rw [decode, ofBytes_text (Json.spells_write _)]
    have hvalue := value_versioned_chain 63 hk (oldDocument (chain 63) (.version k)).write.length 126
    rw [show Document.maxDepth = 126 + 1 from rfl, hvalue]
    rfl
  refine ⟨n, t, hn, hold, decode_of_ofBytes hn ht hold ?_, hrefused (by decide), hrefused (by decide)⟩
  rw [ofBytes_text (Json.spells_write _)]
  exact value_chain 63 _ Document.maxDepth

end Snapshot
end Suggest
