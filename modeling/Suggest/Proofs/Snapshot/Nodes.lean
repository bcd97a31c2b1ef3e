/-
# Written nodes are read again

A node is written as an object with four members (`Node.draft`).  The places of its children come back if they fit 64 bits,
since the characters they stand under are names in ascending order (`value_childrenDraft`, `ofValue_children`), and its entries
come back as far as entries do (`Node.rereads_iff`).
-/

import Suggest.Proofs.Snapshot.Entries
import Suggest.Trie.Basic

namespace Suggest

open Json

namespace Trie
namespace Node

/-- What the places of children stand for. -/
def childrenValue (children : SortedMap Char Nat) : List (String × Value) :=
  children.toList.map fun b => (String.singleton b.1, .ofNat b.2)

/-- The draft of the places of children. -/
def childrenDraft (children : SortedMap Char Nat) : Draft := (Value.object (childrenValue children)).written

/-- The draft of a node. -/
def draft (n : Node) : Draft :=
  .ofMembers [
    ("children", childrenDraft n.children),
    ("is_end_of_word", .bool n.terminal),
    ("results", Entry.draftAll n.entries),
    ("frequency", .number ⟨.ok (.integer n.frequency.toNat), none⟩)]

/-- Whether the places of the children fit 64 bits, which they do wherever nodes can be counted. -/
def Addressed (n : Node) : Prop := ∀ k ∈ n.children.values, k ≤ Reader.maxWord

theorem singleton_lt_singleton {a b : Char} (h : a < b) : String.singleton a < String.singleton b := by
  rw [String.lt_iff, String.toList_singleton, String.toList_singleton, List.cons_lt_cons_iff]
  exact .inl h

theorem ordered_childrenValue (children : SortedMap Char Nat) :
    ((childrenValue children).map Prod.fst).Pairwise (· < ·) := by
  have hordered := children.ordered
  rw [List.pairwise_map] at hordered
  rw [childrenValue, List.map_map, List.pairwise_map]
  exact hordered.imp fun h => singleton_lt_singleton h

theorem mem_childrenValue {children : SortedMap Char Nat} {m : String × Value} (h : m ∈ childrenValue children) :
    ∃ c k, k ∈ children.values ∧ m = (String.singleton c, .ofNat k) := by
  obtain ⟨b, hb, rfl⟩ := List.mem_map.1 h
  exact ⟨b.1, b.2, List.mem_map_of_mem hb, rfl⟩

theorem not_embeds_childrenValue (children : SortedMap Char Nat) : ¬(Value.object (childrenValue children)).Embeds := by
  rw [Value.embeds_object, not_or]
  constructor
  · -- the reserved name is not that of a character
    intro h
    obtain ⟨m, hm, hname⟩ := List.mem_map.1 (List.mem_of_head? h)
    obtain ⟨c, k, -, rfl⟩ := mem_childrenValue hm
    have := congrArg (fun s => s.toList.length) hname
    simp [embeddedName] at this
  · rintro ⟨m, hm, ms, hms, -⟩
    obtain ⟨c, k, -, rfl⟩ := mem_childrenValue hm
    cases hms

theorem depth_childrenValue (children : SortedMap Char Nat) : (Value.object (childrenValue children)).depth = 1 := by
  rw [Value.depth, childrenValue]
  induction children.toList with
  | nil => rfl
  | cons b rest ih =>
    have hnumber : (Value.ofNat b.2).depth = 0 := by simp [Value.ofNat, Value.depth]
    rw [List.map_cons, depthOfMembers, hnumber]
    omega

/-- The places of children come back if they fit 64 bits. -/
theorem value_childrenDraft {children : SortedMap Char Nat} (h : ∀ k ∈ children.values, k ≤ Reader.maxWord)
    {documents room : Nat} (hroom : 1 ≤ room) :
    (childrenDraft children).value (.nested documents room) = .ok (.object (childrenValue children)) := by
  have hordered : (Value.object (childrenValue children)).Ordered := by
    refine Value.ordered_object.2 ⟨ordered_childrenValue children, fun m hm => ?_⟩
    obtain ⟨c, k, -, rfl⟩ := mem_childrenValue hm
    exact fun ms hms => nomatch hms
  refine (value_written_iff hordered).2 ⟨fun n hn => ?_, ?_, not_embeds_childrenValue children⟩
  · rw [Value.numbers, mem_numbersOfMembers] at hn
    obtain ⟨m, hm, hn⟩ := hn
    obtain ⟨c, k, hk, rfl⟩ := mem_childrenValue hm
    obtain rfl : n = .integer k := by simpa [Value.ofNat, Value.numbers] using hn
    have := h k hk
    refine readsAs_write ⟨by omega, ?_⟩
    rw [Reader.maxWord] at this
    rw [Numeral.maxSignificand]
    omega
  · rwa [depth_childrenValue]

theorem ofValue_children {children : SortedMap Char Nat} (h : ∀ k ∈ children.values, k ≤ Reader.maxWord) :
    (Reader.characterMap (.natural Reader.maxWord)).ofValue (.object (childrenValue children)) = .ok children := by
  have hmembers : ∀ b ∈ children.toList, ((do
      return (← Reader.onlyCharacter (← (Draft.ofText (String.singleton b.1)).name),
        ← Reader.natural Reader.maxWord .value (Value.ofNat b.2).draft)) : Except Fault (Char × Nat)) = .ok (id b) := by
    intro b hb
    have hk := h b.2 (List.mem_map_of_mem hb)
    simp [Draft.name, Draft.ofText, Reader.onlyCharacter, Value.ofNat, Value.draft, Reader.natural, hk, bind, Except.bind,
      pure, Except.pure]
  rw [Reader.ofValue, Value.draft, draftMembers_eq_map, childrenValue, List.map_map, Reader.characterMap,
    Reading.inside_value]
  simp only [bind_eq_ok, List.mapM_map, proceed]
  refine ⟨_, rfl, _, mapM_ok hmembers, (), trivial, ?_⟩
  rw [List.map_id, SortedMap.ofList_toList]
  rfl

/-- A written node is scanned as its draft. -/
theorem spells_write (n : Node) : Spells n.write n.draft := by
  have hchildren : Spells
      (Json.object (n.children.toList.map fun b => (String.singleton b.1, Json.natural b.2)))
      (childrenDraft n.children) := by
    have := Json.spells_write (.object (childrenValue n.children))
    rw [Value.write, writeMembers_eq_map, childrenValue, List.map_map] at this
    exact this
  have hfrequency : ReadsAs (Json.natural n.frequency.toNat) (.integer n.frequency.toNat) :=
    readsAs_natural (Nat.le_of_lt_succ n.frequency.toNat_lt)
  exact spells_ofMembers <| .cons ⟨rfl, hchildren⟩ <| .cons ⟨rfl, spells_bool _⟩ <|
    .cons ⟨rfl, Entry.spells_writeAll n.entries⟩ <| .cons ⟨rfl, spells_number hfrequency⟩ .nil

theorem value_draft_eq_ok {n : Node} (h : n.Addressed) {documents room : Nat} (hroom : 1 ≤ room) {v : Value} :
    n.draft.value (.nested documents (room + 1)) = .ok v ↔
      ∃ w, (Entry.draftAll n.entries).value (.nested documents room) = .ok w ∧
        v = .object [("children", .object (childrenValue n.children)),
          ("frequency", .number (.integer n.frequency.toNat)), ("is_end_of_word", .bool n.terminal), ("results", w)] := by
  have hchildren : (childrenDraft n.children).value (.nested documents room) = .ok (.object (childrenValue n.children)) :=
    value_childrenDraft h hroom
  rw [draft, value_ofMembers (Reading.inside_nested documents room) (by simp [Reserved, embeddedName])]
  cases hw : (Entry.draftAll n.entries).value (.nested documents room) with
  | error fault => simp [Draft.value, Except.map, bind, Except.bind, hchildren, hw]
  | ok w =>
    have hsorted : (SortedMap.ofList [("children", .object (childrenValue n.children)), ("is_end_of_word", .bool n.terminal),
        ("results", w), ("frequency", .number (.integer n.frequency.toNat))]).toList =
        [("children", .object (childrenValue n.children)), ("frequency", .number (.integer n.frequency.toNat)),
          ("is_end_of_word", .bool n.terminal), ("results", w)] := by
      simp only [SortedMap.toList_ofList_eq_foldl, List.foldl_cons, List.foldl_nil, SortedMap.alterList, String.reduceLT,
        String.reduceEq, ↓reduceIte]
    simp only [List.mapM_cons, List.mapM_nil, Draft.value, Except.map, bind, Except.bind, pure, Except.pure, hsorted,
      hchildren, hw, Except.ok.injEq, exists_eq_left']
    exact eq_comm

theorem ofValue_object {n m : Node} (h : n.Addressed) {w : Value} :
    reader.ofValue (.object [("children", .object (childrenValue n.children)),
      ("frequency", .number (.integer n.frequency.toNat)), ("is_end_of_word", .bool n.terminal), ("results", w)]) = .ok m ↔
      ∃ entries, (Reader.list Entry.reader).ofValue w = .ok entries ∧ m = { n with entries } := by
  have hchildren : Reader.characterMap (.natural Reader.maxWord) .value (.object (draftMembers (childrenValue n.children)) none) =
      .ok n.children := ofValue_children h
  have hfrequency : n.frequency.toNat ≤ Reader.maxWord := Nat.le_of_lt_succ n.frequency.toNat_lt
  have hfield : (Reader.list Entry.reader).ofValue w = Reader.list Entry.reader .value w.draft := rfl
  rw [hfield]
  cases hw : Reader.list Entry.reader .value w.draft <;>
    simp [reader, Reader.ofValue, Fields.record, Fields.read, Value.draft, draftMembers, Fields.placeMembers,
      Fields.vacant, Fields.place, Fields.complete, Draft.name, Draft.ofText, bind, Except.bind, pure, Except.pure,
      Field.defaulted, Except.map, Reader.natural, Reader.bool, hchildren, hfrequency, hw, proceed,
      Reading.inside_value, eq_comm]

/-- **A node is read again exactly if its entries survive.** -/
theorem rereads_iff {n : Node} (h : n.Addressed) (hentries : ∀ e ∈ n.entries, e.Ordered) (documents room : Nat) :
    Rereads reader (.nested documents (room + 3)) n.draft n ↔ ∀ e ∈ n.entries, e.Survives room := by
  rw [← Entry.rereads_list_iff hentries documents room]
  constructor
  · rintro ⟨v, hv, hn⟩
    obtain ⟨w, hw, rfl⟩ := (value_draft_eq_ok h (by omega)).1 hv
    obtain ⟨entries, he, hn⟩ := (ofValue_object h).1 hn
    have hentries : n.entries = entries := congrArg Node.entries hn
    exact ⟨w, hw, hentries ▸ he⟩
  · rintro ⟨w, hw, he⟩
    exact ⟨_, (value_draft_eq_ok h (by omega)).2 ⟨w, hw, rfl⟩, (ofValue_object h).2 ⟨_, he, rfl⟩⟩

end Node
end Trie
end Suggest
