/-
# Reading a text twice

A snapshot is read in two passes: first the value of its text, then a record out of that value.  `Rereads` puts the two
together, and what it says of a container it says of each part (`rereads_list_iff`, `rereads_sortedMap_iff`).  Metadata come
back out of both passes exactly if they come back out of the first one (`rereads_metadata_iff`).
-/

import Suggest.Proofs.Json.Embedded
import Suggest.Entry

namespace Suggest
namespace Json

variable {α β : Type}

/-- Out of the value of the draft, the reader makes `a`. -/
def Rereads (reader : Reader α) (r : Reading) (d : Draft) (a : α) : Prop :=
  ∃ v, d.value r = .ok v ∧ reader.ofValue v = .ok a

theorem list_array_eq_ok {reader : Reader α} {vs : List Value} {as : List α} :
    (Reader.list reader).ofValue (.array vs) = .ok as ↔ List.Forall₂ (fun v a => reader.ofValue v = .ok a) vs as := by
  rw [Reader.ofValue, Value.draft, draftItems_eq_map, Reader.list, Reading.inside_value]
  simp only [bind_eq_ok, List.mapM_map, mapM_eq_ok_iff, proceed]
  constructor
  · rintro ⟨_, ⟨⟩, _, h, _, -, ⟨⟩⟩
    exact h
  · intro h
    exact ⟨_, rfl, as, h, (), trivial, rfl⟩

/-- **A list is read again item by item.** -/
theorem rereads_list_iff {reader : Reader α} {r inner : Reading} (h : r.inside = .ok inner) {ds : List Draft} {as : List α} :
    Rereads (.list reader) r (.array ds none) as ↔ List.Forall₂ (Rereads reader inner) ds as := by
  rw [Rereads, value_array h]
  simp only [map_eq_ok, mapM_eq_ok_iff]
  refine Iff.trans ?_ forall₂_exists_iff
  constructor
  · rintro ⟨_, ⟨vs, hvs, rfl⟩, has⟩
    exact ⟨vs, hvs, list_array_eq_ok.1 has⟩
  · rintro ⟨vs, hvs, has⟩
    exact ⟨_, ⟨vs, hvs, rfl⟩, list_array_eq_ok.2 has⟩

theorem sortedMap_object_eq_ok {reader : Reader α} {ms : List (String × Value)} {m : SortedMap String α} :
    (Reader.sortedMap reader).ofValue (.object ms) = .ok m ↔
      ∃ cs, List.Forall₂ (fun b c => b.1 = c.1 ∧ reader.ofValue b.2 = .ok c.2) ms cs ∧ .ofList cs = m := by
  have hmember : ∀ (b : String × Value) (c : String × α),
      (do return (← (Draft.ofText b.1).name, ← reader .value b.2.draft) : Except Fault (String × α)) = .ok c ↔
        b.1 = c.1 ∧ reader.ofValue b.2 = .ok c.2 := by
    rintro b ⟨name, a⟩
    simp only [bind_eq_ok, pure_eq_ok, Prod.mk.injEq, Draft.name, Draft.ofText, Except.ok.injEq, exists_eq_left']
    constructor
    · rintro ⟨a, ha, rfl, rfl⟩
      exact ⟨rfl, ha⟩
    · rintro ⟨rfl, ha⟩
      exact ⟨a, ha, rfl, rfl⟩
  rw [Reader.ofValue, Value.draft, draftMembers_eq_map, Reader.sortedMap, Reading.inside_value]
  simp only [bind_eq_ok, List.mapM_map, mapM_eq_ok_iff, proceed]
  constructor
  · rintro ⟨_, ⟨⟩, cs, h, _, -, ⟨⟩⟩
    exact ⟨cs, h.imp fun b c => (hmember b c).1, rfl⟩
  · rintro ⟨cs, h, rfl⟩
    exact ⟨_, rfl, cs, h.imp fun b c => (hmember b c).2, (), trivial, rfl⟩

theorem sortedMap_ordered_eq_ok {reader : Reader α} {ms : List (String × Value)} {m : SortedMap String α}
    (hordered : (ms.map Prod.fst).Pairwise (· < ·)) :
    (Reader.sortedMap reader).ofValue (.object ms) = .ok m ↔
      List.Forall₂ (fun b c => b.1 = c.1 ∧ reader.ofValue b.2 = .ok c.2) ms m.toList := by
  rw [sortedMap_object_eq_ok]
  constructor
  · rintro ⟨cs, h, rfl⟩
    rwa [SortedMap.toList_ofList (names_eq_of_forall₂ h (fun _ _ => And.left) ▸ hordered)]
  · intro h
    exact ⟨m.toList, h, SortedMap.ofList_toList m⟩

/-- **A map is read again member by member,** if the names ascend and the reserved one is not in front. -/
theorem rereads_sortedMap_iff {reader : Reader α} {r inner : Reading} (h : r.inside = .ok inner)
    {members : List (String × Draft)} (hnames : ¬Reserved (members.map Prod.fst))
    (hordered : (members.map Prod.fst).Pairwise (· < ·)) {m : SortedMap String α} :
    Rereads (.sortedMap reader) r (.ofMembers members) m ↔
      List.Forall₂ (fun d b => d.1 = b.1 ∧ Rereads reader inner d.2 b.2) members m.toList := by
  have hmember : ∀ (d : String × Draft) (b : String × Value),
      (d.2.value inner).map (d.1, ·) = .ok b ↔ d.1 = b.1 ∧ d.2.value inner = .ok b.2 := by
    rintro d ⟨name, v⟩
    simp only [map_eq_ok, Prod.mk.injEq]
    constructor
    · rintro ⟨v, hv, rfl, rfl⟩
      exact ⟨rfl, hv⟩
    · rintro ⟨rfl, hv⟩
      exact ⟨v, hv, rfl, rfl⟩
  have hsplit : ∀ (d : String × Draft) (b : String × α), d.1 = b.1 ∧ Rereads reader inner d.2 b.2 ↔
      ∃ c : String × Value, (d.1 = c.1 ∧ d.2.value inner = .ok c.2) ∧ c.1 = b.1 ∧ reader.ofValue c.2 = .ok b.2 := by
    intro d b
    constructor
    · rintro ⟨hname, v, hv, ha⟩
      exact ⟨(d.1, v), ⟨rfl, hv⟩, hname, ha⟩
    · rintro ⟨c, ⟨hd, hv⟩, hb, ha⟩
      exact ⟨hd.trans hb, c.2, hv, ha⟩
  simp only [hsplit]
  rw [← forall₂_exists_iff, Rereads, value_ofMembers h hnames]
  constructor
  · rintro ⟨v, hv, hm⟩
    obtain ⟨ms, hms, rfl⟩ := map_eq_ok.1 hv
    replace hms := (mapM_eq_ok_iff.1 hms).imp fun d b => (hmember d b).1
    have hms' := names_eq_of_forall₂ hms (fun _ _ => And.left) ▸ hordered
    rw [SortedMap.toList_ofList hms'] at hm
    exact ⟨ms, hms, (sortedMap_ordered_eq_ok hms').1 hm⟩
  · rintro ⟨ms, hms, hm⟩
    have hms' := names_eq_of_forall₂ hms (fun _ _ => And.left) ▸ hordered
    refine ⟨_, map_eq_ok.2 ⟨ms, mapM_eq_ok_iff.2 (hms.imp fun d b => (hmember d b).2), rfl⟩, ?_⟩
    rw [SortedMap.toList_ofList hms']
    exact (sortedMap_ordered_eq_ok hms').2 hm

/-- The value of a draft is read again as itself. -/
theorem eq_of_value_value {v w : Value} (hordered : v.Ordered) (hunpacked : v.Unpacked) (h : v.draft.value .value = .ok w) :
    w = v := by
  have hplain := not_embeds_of_unpacked rfl h hunpacked
  have hself := value_draft hordered hplain (Reading.allows_value _)
  exact Except.ok.inj (h.symm.trans hself)

/-- A map of values that is read out of a value is what the value is an object of. -/
theorem eq_object_of_sortedMap {m : Metadata} {w : Value} (hordered : w.Ordered) (hunpacked : w.Unpacked)
    (h : (Reader.sortedMap .value).ofValue w = .ok m) : w = .object m.toList := by
  cases w with
  | null | bool | number | string | array => cases h
  | object ms =>
    obtain ⟨hnames, hordered⟩ := Value.ordered_object.1 hordered
    have hparts := (sortedMap_ordered_eq_ok hnames).1 h
    have hsame : ms = m.toList := eq_of_forall₂ hparts fun b hb c hbc =>
      Prod.ext hbc.1 (eq_of_value_value (hordered b hb) ((Value.unpacked_object.1 hunpacked).2 b hb) hbc.2).symm
    rw [hsame]

/-- **Metadata are read again exactly if they survive.** -/
theorem rereads_metadata_iff {documents room : Nat} {m : Metadata} (hordered : (Value.object m.toList).Ordered) :
    Rereads (.optional (.sortedMap .value)) (.nested documents room) (Value.object m.toList).written (some m) ↔
      (Value.object m.toList).Survives room := by
  rw [← @value_written_iff _ hordered documents]
  constructor
  · rintro ⟨w, hw, hm⟩
    have hmap : (Reader.sortedMap .value).ofValue w = .ok m := by
      cases w with
      | null | bool | number | string | array => cases hm
      | object =>
        obtain ⟨_, hm, ⟨⟩⟩ := map_eq_ok.1 hm
        exact hm
    rwa [eq_object_of_sortedMap (ordered_of_value_nested hw) (unpacked_of_value_nested hw) hmap] at hw
  · intro hread
    have hplain : ¬(Value.object m.toList).Embeds := (value_written_iff hordered).1 hread |>.plain
    refine ⟨_, hread, map_eq_ok.2 ⟨m, (sortedMap_ordered_eq_ok m.ordered).2 (List.forall₂_same.2 fun b hb => ⟨rfl, ?_⟩), rfl⟩⟩
    exact value_draft ((Value.ordered_object.1 hordered).2 b hb)
      (fun hembeds => hplain (Value.embeds_object.2 (.inr ⟨b, hb, hembeds⟩))) (Reading.allows_value _)

end Json
end Suggest
