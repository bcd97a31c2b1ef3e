/-
# Written entries are read again

An entry is written as an object with five members (`Entry.draft`) and read again out of it, apart from its score and its
metadata: those are what they were exactly if they survive (`Entry.rereads_iff`).

| field | read again |
| --- | --- |
| `id`, `text`, `category` | always |
| `score` | if its decimals bring it back |
| `metadata` | if the object that they are survives |

Entries of which the numbers are read back, and whose metadata are not nested too deep (`Entry.Storable`), survive if nothing is
embedded in them (`Entry.Storable.survives_iff`).
-/

import Suggest.Proofs.Json.Reread

namespace Suggest

open Json

namespace Json

theorem spells_map {α : Type} {name : α → String} {text : α → List Char} {draft : α → Draft} {members : List α}
    (h : ∀ x ∈ members, Spells (text x) (draft x)) :
    Spells (object (members.map fun x => (name x, text x))) (.ofMembers (members.map fun x => (name x, draft x))) := by
  rw [Draft.ofMembers, List.map_map]
  exact spells_object h

/-- **Written members are scanned as their drafts.** -/
theorem spells_ofMembers {parts : List (String × List Char)} {members : List (String × Draft)}
    (h : List.Forall₂ (fun p m => p.1 = m.1 ∧ Spells p.2 m.2) parts members) :
    Spells (object parts) (.ofMembers members) := by
  obtain ⟨xs, hparts, hmembers, hxs⟩ : ∃ xs : List (String × List Char × Draft),
      parts = xs.map (fun x => (x.1, x.2.1)) ∧ members = xs.map (fun x => (x.1, x.2.2)) ∧
        ∀ x ∈ xs, Spells x.2.1 x.2.2 := by
    induction h with
    | nil => exact ⟨[], rfl, rfl, fun _ hx => nomatch hx⟩
    | @cons p m parts members hp _ ih =>
      obtain ⟨xs, rfl, rfl, hxs⟩ := ih
      refine ⟨(p.1, p.2, m.2) :: xs, rfl, by rw [List.map_cons, hp.1], ?_⟩
      simpa using ⟨hp.2, fun a b c hx => hxs (a, b, c) hx⟩
  rw [hparts, hmembers]
  exact spells_map hxs

end Json

namespace Entry

/-- The draft of metadata. -/
def metadataDraft : Option Metadata → Draft
  | some metadata => (Value.object metadata.toList).written
  | none => .null

/-- The draft of an entry. -/
def draft (e : Entry) : Draft :=
  .ofMembers [
    ("id", .ofText e.id),
    ("text", .ofText e.text),
    ("category", .ofText e.category),
    ("score", numberDraft (Json.single e.score)),
    ("metadata", metadataDraft e.metadata)]

/-- How deep metadata may be nested, their own object not counted, so that they can be read. -/
def maxDepth : Nat := 120

/-- What an entry must be like to be read back, apart from what is embedded in it: the decimals of its score bring it back,
and so do those in its metadata, which are not nested too deep. -/
structure Storable (e : Entry) : Prop where
  score : (numberOf? (Json.single e.score)).map Reader.nearestSingle = some e.score
  proper : ∀ m, e.metadata = some m → (Value.object m.toList).Proper
  depth : ∀ m, e.metadata = some m → depthOfMembers m.toList ≤ maxDepth

/-- Whether something in the metadata of an entry stands for something else. -/
def Embeds (e : Entry) : Prop := ∃ m, e.metadata = some m ∧ (Value.object m.toList).Embeds

/-- Whether the names in the metadata of an entry ascend. -/
def Ordered (e : Entry) : Prop := ∀ m, e.metadata = some m → (Value.object m.toList).Ordered

/-- Whether an entry comes back when it is written and its text is read where so many containers may be entered: the decimals
of its score bring it back, and its metadata survive. -/
structure Survives (e : Entry) (room : Nat) : Prop where
  score : (numberOf? (Json.single e.score)).map Reader.nearestSingle = some e.score
  metadata : ∀ m, e.metadata = some m → (Value.object m.toList).Survives room

theorem Storable.ordered {e : Entry} (h : e.Storable) : e.Ordered := fun m hm => (h.proper m hm).ordered

/-- Entries that can be stored survive exactly if nothing is embedded in them. -/
theorem Storable.survives_iff {e : Entry} (h : e.Storable) {room : Nat} (hroom : maxDepth + 1 ≤ room) :
    e.Survives room ↔ ¬e.Embeds := by
  constructor
  · rintro hsurvives ⟨m, hm, hembeds⟩
    exact (hsurvives.metadata m hm).plain hembeds
  · intro hplain
    refine ⟨h.score, fun m hm => ⟨fun n hn => readsAs_write ((h.proper m hm).numbers n hn), ?_, fun he => hplain ⟨m, hm, he⟩⟩⟩
    have := h.depth m hm
    rw [Value.depth]
    omega

/-- A written entry is scanned as its draft. -/
theorem spells_write (e : Entry) : Spells e.write e.draft := by
  have hmetadata : Spells (match e.metadata with | some m => writeMetadata m | none => Json.null)
      (metadataDraft e.metadata) := by
    cases e.metadata with
    | none => exact spells_null
    | some m => exact Json.spells_write (.object m.toList)
  exact spells_ofMembers <| .cons ⟨rfl, spells_string _⟩ <| .cons ⟨rfl, spells_string _⟩ <|
    .cons ⟨rfl, spells_string _⟩ <| .cons ⟨rfl, spells_binary .single e.score⟩ <| .cons ⟨rfl, hmetadata⟩ .nil

/-- How metadata are read. -/
def metadataReader : Reader (Option Metadata) := .optional (.sortedMap .value)

theorem value_draft_eq_ok {e : Entry} {documents room : Nat} {v : Value} :
    e.draft.value (.nested documents (room + 1)) = .ok v ↔
      ∃ s w, (numberDraft (Json.single e.score)).value (.nested documents room) = .ok s ∧
        (metadataDraft e.metadata).value (.nested documents room) = .ok w ∧
        v = .object [("category", .string e.category), ("id", .string e.id), ("metadata", w), ("score", s),
          ("text", .string e.text)] := by
  rw [draft, value_ofMembers (Reading.inside_nested documents room) (by simp [Reserved, embeddedName])]
  cases hs : (numberDraft (Json.single e.score)).value (.nested documents room) with
  | error fault => simp [Draft.value, Except.map, bind, Except.bind, Draft.ofText, hs]
  | ok s =>
    cases hm : (metadataDraft e.metadata).value (.nested documents room) with
    | error fault => simp [Draft.value, Except.map, bind, Except.bind, Draft.ofText, hs, hm]
    | ok w =>
      have hsorted : (SortedMap.ofList [("id", .string e.id), ("text", .string e.text), ("category", .string e.category),
          ("score", s), ("metadata", w)]).toList =
          [("category", .string e.category), ("id", .string e.id), ("metadata", w), ("score", s),
            ("text", .string e.text)] := by
        simp only [SortedMap.toList_ofList_eq_foldl, List.foldl_cons, List.foldl_nil, SortedMap.alterList, String.reduceLT,
          String.reduceEq, ↓reduceIte]
      simp only [List.mapM_cons, List.mapM_nil, Draft.value, Except.map, bind, Except.bind, Draft.ofText, pure,
        Except.pure, hsorted, hs, hm, Except.ok.injEq, exists_and_left, exists_eq_left']
      exact eq_comm

theorem ofValue_object {i t c : String} {s w : Value} {e : Entry} :
    reader.ofValue (.object [("category", .string c), ("id", .string i), ("metadata", w), ("score", s),
      ("text", .string t)]) = .ok e ↔
      ∃ x m, Reader.single.ofValue s = .ok x ∧ metadataReader.ofValue w = .ok m ∧ e = ⟨i, t, c, x, m⟩ := by
  have hfield : metadataReader.ofValue w = Reader.optional (.sortedMap .value) .value w.draft := rfl
  have hscore : Reader.single.ofValue s = Reader.single .value s.draft := rfl
  rw [hfield, hscore]
  cases hw : Reader.optional (.sortedMap .value) .value w.draft <;> cases hs : Reader.single .value s.draft <;>
    simp [reader, Reader.ofValue, Fields.record, Fields.read, Value.draft, draftMembers, Fields.placeMembers,
      Fields.vacant, Fields.place, Fields.complete, Draft.name, Draft.ofText, bind, Except.bind, pure, Except.pure,
      Field.required, Field.named, Field.defaulted, Except.map, Reader.text, Draft.text, hs, hw, proceed,
      Reading.inside_value, eq_comm]

/-- A score is read again exactly if its decimals bring it back. -/
theorem rereads_score_iff {x : Single} {r : Reading} :
    Rereads .single r (numberDraft (Json.single x)) x ↔
      (numberOf? (Json.single x)).map Reader.nearestSingle = some x := by
  rcases numberDraft_cases (Json.single x) with ⟨n, hn, hdraft⟩ | ⟨hnone, hdraft⟩
  · rw [Rereads, hdraft, hn]
    simp [Draft.value, Except.map, Reader.ofValue, Value.draft, Reader.single]
  · rw [Rereads, hnone]
    rcases hdraft with hdraft | hdraft <;> rw [hdraft] <;>
      simp [Draft.value, Except.map, Reader.ofValue, Value.draft, Reader.single]

/-- **An entry is read again exactly if it survives.** -/
theorem rereads_iff {e : Entry} (h : e.Ordered) {documents room : Nat} :
    Rereads reader (.nested documents (room + 1)) e.draft e ↔ e.Survives room := by
  have hmetadata : Rereads metadataReader (.nested documents room) (metadataDraft e.metadata) e.metadata ↔
      ∀ m, e.metadata = some m → (Value.object m.toList).Survives room := by
    cases hm : e.metadata with
    | none => exact iff_of_true ⟨.null, rfl, rfl⟩ fun _ hm => nomatch hm
    | some m =>
      rw [metadataDraft, metadataReader, rereads_metadata_iff (h m hm)]
      simp
  constructor
  · rintro ⟨v, hv, he⟩
    obtain ⟨s, w, hs, hw, rfl⟩ := value_draft_eq_ok.1 hv
    obtain ⟨x, m, hx, hm, he⟩ := ofValue_object.1 he
    have hscore : e.score = x := congrArg score he
    have hmeta : e.metadata = m := congrArg metadata he
    exact ⟨rereads_score_iff.1 ⟨s, hs, hscore ▸ hx⟩, hmetadata.1 ⟨w, hw, hmeta ▸ hm⟩⟩
  · rintro ⟨hscore, hsurvives⟩
    obtain ⟨s, hs, hx⟩ := rereads_score_iff.2 hscore
    obtain ⟨w, hw, hm⟩ := hmetadata.2 hsurvives
    exact ⟨_, value_draft_eq_ok.2 ⟨s, w, hs, hw, rfl⟩, ofValue_object.2 ⟨_, _, hx, hm, rfl⟩⟩

/-- The draft of a list of entries. -/
def draftAll (entries : List Entry) : Draft := .array (entries.map draft) none

theorem spells_writeAll (entries : List Entry) : Spells (array (entries.map write)) (draftAll entries) :=
  spells_array fun e _ => spells_write e

/-- A list of entries is read again exactly if each of them survives. -/
theorem rereads_list_iff {entries : List Entry} (h : ∀ e ∈ entries, e.Ordered) (documents room : Nat) :
    Rereads (.list reader) (.nested documents (room + 2)) (draftAll entries) entries ↔
      ∀ e ∈ entries, e.Survives room := by
  rw [draftAll, Json.rereads_list_iff (Reading.inside_nested documents (room + 1)), List.forall₂_map_left_iff,
    List.forall₂_same]
  exact forall₂_congr fun e he => rereads_iff (h e he)

end Entry
end Suggest
