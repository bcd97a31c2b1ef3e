/-
# What readers make of values

A reader yields a property if all that it makes out of values has it (`Reader.Yields`).  That is so of a list or a map if it is
so of what stands in it, and of a record if it follows from what its fields yield: each of its values was read by its field, or
is the one that the field has when it is left out (`Field.Gives`, `Fields.yields_record`).  And readers that read the same out of
what stands in a record or a map read the same record or map (`Fields.read_cons_congr`, `Reader.characterMap_congr`).
-/

import Suggest.Json.Record
import Suggest.Proofs.Json.Embedded

namespace Suggest
namespace Json

variable {α : Type}

/-- Whether all that a reader makes out of values has the property. -/
def Reader.Yields (reader : Reader α) (P : α → Prop) : Prop := ∀ (d : Draft) (a : α), reader .value d = .ok a → P a

namespace Reader.Yields

variable {reader : Reader α} {P : α → Prop}

theorem list (h : reader.Yields P) : (Reader.list reader).Yields fun as => ∀ a ∈ as, P a := by
  intro d as hread a ha
  cases d with
  | missing | word | null | bool | number | string | object => cases hread
  | array items stop =>
    simp only [Reader.list, Reading.inside_value, bind_eq_ok] at hread
    obtain ⟨_, ⟨⟩, bs, hbs, -, -, ⟨⟩⟩ := hread
    obtain ⟨d, -, hd⟩ := exists_of_mem_mapM_ok hbs ha
    exact h d a hd

theorem optional (h : reader.Yields P) : (Reader.optional reader).Yields fun o => ∀ a, o = some a → P a := by
  rintro d o hread a rfl
  cases d with
  | null => cases hread
  | missing | word | bool | number | string | array | object =>
    obtain ⟨b, hb, ⟨⟩⟩ := map_eq_ok.1 hread
    exact h _ _ hb

theorem sortedMap (h : reader.Yields P) : (Reader.sortedMap reader).Yields fun m => ∀ b ∈ m.toList, P b.2 := by
  intro d m hread b hb
  cases d with
  | missing | word | null | bool | number | string | array => cases hread
  | object members stop =>
    simp only [Reader.sortedMap, Reading.inside_value, bind_eq_ok] at hread
    obtain ⟨_, ⟨⟩, bs, hbs, -, -, ⟨⟩⟩ := hread
    obtain ⟨⟨k, d⟩, -, hd⟩ := exists_of_mem_mapM_ok hbs (SortedMap.mem_of_mem_toList_ofList hb)
    obtain ⟨_, -, a, ha, ⟨⟩⟩ := by simpa only [bind_eq_ok] using hd
    exact h d a ha

theorem characterMap (h : reader.Yields P) : (Reader.characterMap reader).Yields fun m => ∀ b ∈ m.toList, P b.2 := by
  intro d m hread b hb
  cases d with
  | missing | word | null | bool | number | string | array => cases hread
  | object members stop =>
    simp only [Reader.characterMap, Reading.inside_value, bind_eq_ok] at hread
    obtain ⟨_, ⟨⟩, bs, hbs, -, -, ⟨⟩⟩ := hread
    obtain ⟨⟨k, d⟩, -, hd⟩ := exists_of_mem_mapM_ok hbs (SortedMap.mem_of_mem_toList_ofList hb)
    obtain ⟨_, -, _, -, a, ha, ⟨⟩⟩ := by simpa only [bind_eq_ok] using hd
    exact h d a ha

end Reader.Yields

/-- The names in a value that is read ascend. -/
theorem Reader.yields_value : Reader.value.Yields Value.Ordered := fun _ _ => ordered_of_value_value

namespace Field

/-- Whether a value was read by the field, or is the one that the field has when it is left out. -/
def Gives (field : Field α) (a : α) : Prop := field.absent = some a ∨ ∃ d, field.read .value d = .ok a

theorem gives_of_leftOut {field : Field α} {a : α} (h : field.leftOut = .ok a) : field.Gives a := by
  unfold leftOut at h
  split at h
  · next b hb => exact .inl (by rw [hb, Except.ok.inj h])
  · cases h

namespace Gives

variable {name : String} {reader : Reader α} {P : α → Prop} {a : α}

theorem of_required (hgives : (required name reader).Gives a) (h : reader.Yields P) : P a := by
  rcases hgives with habsent | ⟨d, hread⟩
  · cases habsent
  · exact h d a hread

theorem of_defaulted {absent : α} (hgives : (defaulted name reader absent).Gives a) (h : reader.Yields P)
    (habsent : P absent) : P a := by
  rcases hgives with heq | ⟨d, hread⟩
  · exact Option.some.inj heq ▸ habsent
  · exact h d a hread

end Gives
end Field

namespace Fields

/-- Whether each value of a record is given by its field. -/
def Made : {σ τ : Type} → Fields σ τ → τ → Prop
  | _, _, .nil, () => True
  | _, _, .cons field rest, (a, values) => field.Gives a ∧ rest.Made values

/-- Whether what stands in each slot was read by its field. -/
def Filled : {σ τ : Type} → Fields σ τ → σ → Prop
  | _, _, .nil, () => True
  | _, _, .cons field rest, (slot, slots) => (∀ a, slot = some a → ∃ d, field.read .value d = .ok a) ∧ rest.Filled slots

theorem filled_vacant : {σ τ : Type} → (fields : Fields σ τ) → fields.Filled fields.vacant
  | _, _, .nil => trivial
  | _, _, .cons _ rest => ⟨fun _ h => (nomatch h), filled_vacant rest⟩

theorem filled_place {name : String} {d : Draft} : {σ τ : Type} → {fields : Fields σ τ} → {slots slots' : σ} →
    fields.Filled slots → fields.place .value name d slots = .ok (some slots') → fields.Filled slots'
  | _, _, .nil, (), _, _, h => nomatch h
  | _, _, .cons field rest, (slot, slots), slots', hfilled, h => by
    rw [place] at h
    split at h
    · split at h
      · cases h
      · obtain ⟨a, ha, heq⟩ := map_eq_ok.1 h
        cases heq
        exact ⟨fun _ hb => ⟨d, by rw [ha, Option.some.inj hb]⟩, hfilled.2⟩
    · obtain ⟨placed, hplaced, heq⟩ := map_eq_ok.1 h
      obtain ⟨more, rfl, rfl⟩ := Option.map_eq_some_iff.1 heq
      exact ⟨hfilled.1, filled_place hfilled.2 hplaced⟩

theorem filled_placeMembers {strict : Bool} {σ τ : Type} {fields : Fields σ τ} {members : List (Draft × Draft)}
    {slots slots' : σ} (hfilled : fields.Filled slots)
    (h : fields.placeMembers strict .value members slots = .ok slots') : fields.Filled slots' := by
  induction members generalizing slots with
  | nil => cases h; exact hfilled
  | cons m rest ih =>
    obtain ⟨k, d⟩ := m
    simp only [placeMembers, bind_eq_ok] at h
    obtain ⟨name, -, placed, hplaced, h⟩ := h
    cases placed with
    | some placed => exact ih (filled_place hfilled hplaced) h
    | none =>
      dsimp only at h
      split at h
      · cases h
      · obtain ⟨-, -, h⟩ := bind_eq_ok.1 h
        exact ih hfilled h

theorem made_complete : {σ τ : Type} → {fields : Fields σ τ} → {slots : σ} → {values : τ} → fields.Filled slots →
    fields.complete slots = .ok values → fields.Made values
  | _, _, .nil, (), _, _, _ => trivial
  | _, _, .cons field rest, (slot, slots), (a, values), hfilled, h => by
    cases slot with
    | some b =>
      simp only [complete, bind_eq_ok] at h
      obtain ⟨_, ⟨⟩, others, hothers, heq⟩ := h
      cases heq
      exact ⟨.inr (hfilled.1 a rfl), made_complete hfilled.2 hothers⟩
    | none =>
      simp only [complete, bind_eq_ok] at h
      obtain ⟨b, hb, others, hothers, heq⟩ := h
      cases heq
      exact ⟨Field.gives_of_leftOut hb, made_complete hfilled.2 hothers⟩

theorem made_readItems {stop : Option Fault} : {σ τ : Type} → {fields : Fields σ τ} → {items left : List Draft} →
    {values : τ} → fields.readItems .value stop items = .ok (values, left) → fields.Made values
  | _, _, .nil, _, _, (), _ => trivial
  | _, _, .cons field rest, [], _, (a, values), h => by
    simp only [readItems, bind_eq_ok] at h
    obtain ⟨-, -, b, hb, ⟨others, more⟩, hothers, heq⟩ := h
    cases heq
    exact ⟨Field.gives_of_leftOut hb, made_readItems hothers⟩
  | _, _, .cons field rest, d :: items, _, (a, values), h => by
    simp only [readItems, bind_eq_ok] at h
    obtain ⟨b, hb, ⟨others, more⟩, hothers, heq⟩ := h
    cases heq
    exact ⟨.inr ⟨d, hb⟩, made_readItems hothers⟩

/-- **What is made of a record is made of values that its fields read, or have when they are left out.** -/
theorem exists_made_of_read {σ τ : Type} {fields : Fields σ τ} {strict : Bool} {make : τ → Except Fault α} {d : Draft}
    {a : α} (h : fields.read strict make .value d = .ok a) : ∃ values, fields.Made values ∧ make values = .ok a := by
  cases d with
  | missing | word | null | bool | number | string => cases h
  | object members stop =>
    simp only [read, Reading.inside_value, bind_eq_ok] at h
    obtain ⟨_, ⟨⟩, slots, hslots, -, -, values, hvalues, h⟩ := h
    exact ⟨values, made_complete (filled_placeMembers (filled_vacant fields) hslots) hvalues, h⟩
  | array items stop =>
    simp only [read, Reading.inside_value, bind_eq_ok] at h
    obtain ⟨_, ⟨⟩, ⟨values, left⟩, hvalues, b, hb, h⟩ := h
    refine ⟨values, made_readItems hvalues, ?_⟩
    split at h
    · cases h
    · obtain ⟨-, -, h⟩ := bind_eq_ok.1 h
      cases h
      exact hb

/-- **A record yields what follows from its fields.** -/
theorem yields_record {σ τ : Type} {fields : Fields σ τ} {make : τ → α} {P : α → Prop}
    (h : ∀ values, fields.Made values → P (make values)) : (fields.record make).Yields P := by
  intro d a hread
  obtain ⟨values, hmade, hmake⟩ := exists_made_of_read hread
  cases hmake
  exact h values hmade

end Fields

/-! ### What readers look at -/

/-- What stands directly inside a draft. -/
def Draft.contents : Draft → List Draft
  | .array items _ => items
  | .object members _ => members.map Prod.snd
  | _ => []

/-- What stands directly inside a value is nested less deep. -/
theorem exists_of_mem_contents {v : Value} {e : Draft} (h : e ∈ v.draft.contents) :
    ∃ w : Value, e = w.draft ∧ w.depth < v.depth := by
  cases v with
  | null | bool | number | string => cases h
  | array items =>
    rw [Value.draft, Draft.contents, draftItems_eq_map, List.mem_map] at h
    obtain ⟨w, hw, rfl⟩ := h
    exact ⟨w, rfl, Nat.lt_succ_of_le (depthOfItems_le_iff.1 (Nat.le_refl _) w hw)⟩
  | object members =>
    rw [Value.draft, Draft.contents, draftMembers_eq_map, List.map_map, List.mem_map] at h
    obtain ⟨m, hm, rfl⟩ := h
    exact ⟨m.2, rfl, Nat.lt_succ_of_le (depthOfMembers_le_iff.1 (Nat.le_refl _) m hm)⟩

/-- A map of characters is the same for readers that read the same out of what stands in it. -/
theorem Reader.characterMap_congr {reader other : Reader α} {d : Draft}
    (h : ∀ e ∈ d.contents, other .value e = reader .value e) :
    characterMap other .value d = characterMap reader .value d := by
  cases d with
  | missing | word | null | bool | number | string | array => rfl
  | object members stop =>
    rw [characterMap, characterMap, Reading.inside_value]
    refine congrArg (· >>= fun ms => proceed stop >>= fun _ => pure (SortedMap.ofList ms)) (mapM_congr fun m hm => ?_)
    obtain ⟨k, e⟩ := m
    have he : other .value e = reader .value e := h e (List.mem_map_of_mem (f := Prod.snd) hm)
    simp only [he]

namespace Fields

variable {σ τ : Type} {rest : Fields σ τ} {field : Field α} {other : Reader α}

theorem placeMembers_cons_congr {strict : Bool} {members : List (Draft × Draft)}
    (h : ∀ m ∈ members, other .value m.2 = field.read .value m.2) (slots : Option α × σ) :
    (cons { field with read := other } rest).placeMembers strict .value members slots =
      (cons field rest).placeMembers strict .value members slots := by
  induction members generalizing slots with
  | nil => rfl
  | cons m members ih =>
    obtain ⟨k, d⟩ := m
    have hd : other .value d = field.read .value d := h (k, d) List.mem_cons_self
    have hplace (name : String) : (cons { field with read := other } rest).place .value name d slots =
        (cons field rest).place .value name d slots := by
      simp only [place, hd]
    have ih := ih fun m hm => h m (List.mem_cons_of_mem _ hm)
    simp only [placeMembers, hplace, ih]

theorem readItems_cons_congr {stop : Option Fault} {items : List Draft}
    (h : ∀ d ∈ items, other .value d = field.read .value d) :
    (cons { field with read := other } rest).readItems .value stop items =
      (cons field rest).readItems .value stop items := by
  cases items with
  | nil => rfl
  | cons d items => simp only [readItems, h d List.mem_cons_self]

/-- A record is the same if its first field is read the same out of what stands in it. -/
theorem read_cons_congr (field : Field α) {β : Type} {strict : Bool} {make : α × τ → Except Fault β} {d : Draft}
    (h : ∀ e ∈ d.contents, other .value e = field.read .value e) :
    (cons { field with read := other } rest).read strict make .value d = (cons field rest).read strict make .value d := by
  cases d with
  | missing | word | null | bool | number | string => rfl
  | object members stop =>
    have hmembers : ∀ m ∈ members, other .value m.2 = field.read .value m.2 := fun m hm => h _ (List.mem_map_of_mem hm)
    simp only [read, Reading.inside_value, bind, Except.bind, placeMembers_cons_congr hmembers]
    rfl
  | array items stop =>
    have hitems : ∀ d ∈ items, other .value d = field.read .value d := h
    simp only [read, Reading.inside_value, bind, Except.bind, readItems_cons_congr hitems]

end Fields
end Json
end Suggest
