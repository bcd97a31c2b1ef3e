/-
# What is read out of a draft

A reader sorts the members of an object and keeps one of each name, so the names in the objects of what it makes ascend
(`ordered_of_value`).

An object whose first name is the reserved one stands for the document in its text, so it does not come back when it is read
again.  A reader makes something of its draft only if it has no other name (`exists_text_of_reserved`), and what it makes then
is no such object (`unpacked_of_value`): of the objects in what it makes, those with the reserved name in front have another
name as well.  So values come back exactly if nothing in them is embedded (`not_embeds_of_unpacked`).

When a value is written and its text is read, it comes back if moreover its numbers do and it is not nested too deep, and in no
other case (`value_written_iff`).
-/

import Suggest.Proofs.Json.Values

namespace Suggest
namespace Json

/-- Whether every object in the value that has the reserved name in front has another name as well, so that no reader takes
it for something embedded. -/
def Value.Unpacked (v : Value) : Prop :=
  ∀ members ∈ v.objects, Reserved (members.map Prod.fst) → ∃ m ∈ members, m.1 ≠ embeddedName

theorem Value.unpacked_array {items : List Value} : (Value.array items).Unpacked ↔ ∀ v ∈ items, v.Unpacked := by
  simp only [Value.Unpacked, Value.objects, mem_objectsOfItems]
  constructor
  · intro h v hv ms hms
    exact h ms ⟨v, hv, hms⟩
  · rintro h ms ⟨v, hv, hms⟩
    exact h v hv ms hms

theorem Value.unpacked_object {members : List (String × Value)} :
    (Value.object members).Unpacked ↔
      (Reserved (members.map Prod.fst) → ∃ m ∈ members, m.1 ≠ embeddedName) ∧ ∀ m ∈ members, m.2.Unpacked := by
  simp only [Value.Unpacked, Value.objects, List.mem_cons, mem_objectsOfMembers]
  constructor
  · intro h
    exact ⟨h members (.inl rfl), fun m hm ms hms => h ms (.inr ⟨m, hm, hms⟩)⟩
  · rintro ⟨hfirst, hrest⟩ ms (rfl | ⟨m, hm, hms⟩)
    · exact hfirst
    · exact hrest m hm ms hms

theorem Reading.embedded_of_inside {r inner : Reading} (h : r.inside = .ok inner) : inner.embedded = r.embedded := by
  obtain ⟨room, -, h⟩ := bind_eq_ok.1 h
  cases h
  rfl

/-- **Members stand for something embedded** exactly if there is one of them only, with the reserved name and a text that
the reader of embedded texts makes something of. -/
theorem embeddedValue_eq_some_iff {r : Reading} {members : List (Draft × Draft)} {v : Value} :
    embeddedValue r members = .ok (some v) ↔
      ∃ read k d text, r.embedded = some read ∧ members = [(k, d)] ∧ k.name = .ok embeddedName ∧
        d.text = .ok text ∧ read text = .ok v := by
  constructor
  · intro h
    match members with
    | [] => cases h
    | (k, d) :: rest =>
      rw [embeddedValue] at h
      cases hr : r.embedded with
      | none => simp [hr] at h
      | some read =>
        simp only [hr, bind_eq_ok] at h
        obtain ⟨name, hname, h⟩ := h
        split at h
        · cases h
        · next heq =>
          obtain ⟨text, htext, w, hw, h⟩ := by simpa only [bind_eq_ok, mapError_eq_ok] using h
          split at h
          · next hrest =>
            cases h
            rw [ne_eq, not_not] at heq
            exact ⟨read, k, d, text, rfl, by simpa using hrest, heq ▸ hname, htext, hw⟩
          · cases h
  · rintro ⟨read, k, d, text, hr, rfl, hname, htext, hv⟩
    simp [embeddedValue, hr, hname, htext, hv, bind, Except.bind, Except.mapError, pure, Except.pure]

/-- If members can be embedded, nothing is embedded in them exactly if there are none or another name is in front. -/
theorem embeddedValue_eq_none_iff {r : Reading} (hr : r.embedded.isSome) {members : List (Draft × Draft)} :
    embeddedValue r members = .ok none ↔
      members = [] ∨ ∃ k d rest name, members = (k, d) :: rest ∧ k.name = .ok name ∧ name ≠ embeddedName := by
  obtain ⟨read, hread⟩ := Option.isSome_iff_exists.1 hr
  constructor
  · intro h
    match members with
    | [] => exact .inl rfl
    | (k, d) :: rest =>
      simp only [embeddedValue, hread, bind_eq_ok] at h
      obtain ⟨name, hname, h⟩ := h
      split at h
      · next hne => exact .inr ⟨k, d, rest, name, rfl, hname, hne⟩
      · obtain ⟨text, htext, w, hw, h⟩ := by simpa only [bind_eq_ok] using h
        split at h <;> cases h
  · rintro (rfl | ⟨k, d, rest, name, rfl, hname, hne⟩)
    · rfl
    · simp [embeddedValue, hread, hname, hne, bind, Except.bind, pure, Except.pure]

/-- Members that do not stand for something embedded have another name than the reserved one, the one in front, if the
least of their names is the reserved one. -/
theorem exists_ne_of_embeddedValue_eq_none {r : Reading} (hr : r.embedded.isSome) {members : List (Draft × Draft)}
    (hnone : embeddedValue r members = .ok none) {ms : List (String × Value)} (hms : valueMembers r members = .ok ms)
    (hreserved : Reserved ((SortedMap.ofList ms).toList.map Prod.fst)) :
    ∃ m ∈ (SortedMap.ofList ms).toList, m.1 ≠ embeddedName := by
  rw [valueMembers_eq_mapM] at hms
  rcases (embeddedValue_eq_none_iff hr).1 hnone with rfl | ⟨k, d, rest, name, rfl, hname, hne⟩
  · cases hms
    cases hreserved
  · obtain ⟨m, hm, ms, -, rfl⟩ := by simpa only [List.mapM_cons, bind_eq_ok, pure_eq_ok] using hms
    have hname : m.1 = name := Except.ok.inj ((valueMember_eq_ok.1 hm).1.symm.trans hname)
    have hkey : name ∈ (SortedMap.ofList (m :: ms)).keys := by
      rw [SortedMap.mem_keys_ofList, ← hname]
      simp
    obtain ⟨b, hb, hkey⟩ := List.mem_map.1 hkey
    exact ⟨b, hb, hkey ▸ hne⟩

/-- What holds of the sorted members of every draft of an object in which nothing is embedded, holds of the objects in what a
reader makes, if it holds of those in what is embedded. -/
theorem forall_objects_of_value {P : List (String × Value) → Prop}
    (hobject : ∀ (r : Reading) (members : List (Draft × Draft)) (ms : List (String × Value)), r.embedded.isSome →
      embeddedValue r members = .ok none → valueMembers r members = .ok ms → P (SortedMap.ofList ms).toList)
    {r : Reading} {read : String → Except Fault Value} (hr : r.embedded = some read)
    (hread : ∀ text v, read text = .ok v → ∀ ms ∈ v.objects, P ms) (d : Draft) {v : Value} (h : d.value r = .ok v) :
    ∀ ms ∈ v.objects, P ms := by
  match d with
  | .missing _ | .word _ => cases h
  | .null | .bool _ => cases h; simp [Value.objects]
  | .number n =>
    obtain ⟨n, -, rfl⟩ := map_eq_ok.1 h
    simp [Value.objects]
  | .string s =>
    obtain ⟨n, -, rfl⟩ := map_eq_ok.1 h
    simp [Value.objects]
  | .array items stop =>
    simp only [Draft.value, bind_eq_ok, valueItems_eq_mapM] at h
    obtain ⟨inner, hinner, vs, hvs, -, -, h⟩ := h
    cases h
    intro ms hms
    obtain ⟨v, hv, hms⟩ := mem_objectsOfItems.1 hms
    obtain ⟨d, hd, hdv⟩ := exists_of_mem_mapM_ok hvs hv
    exact forall_objects_of_value hobject ((Reading.embedded_of_inside hinner).trans hr) hread d hdv ms hms
  | .object members stop =>
    simp only [Draft.value, bind_eq_ok] at h
    obtain ⟨inner, hinner, embedded, hembedded, h⟩ := h
    have hinner := (Reading.embedded_of_inside hinner).trans hr
    cases embedded with
    | some w =>
      obtain ⟨-, -, h⟩ := bind_eq_ok.1 h
      cases h
      obtain ⟨read', -, -, text, hread', -, -, -, hv⟩ := embeddedValue_eq_some_iff.1 hembedded
      obtain rfl : read' = read := Option.some.inj (hread'.symm.trans hinner)
      exact hread text _ hv
    | none =>
      simp only [bind_eq_ok] at h
      obtain ⟨ms, hms, -, -, h⟩ := h
      cases h
      have hself := hobject inner members ms (by simp [hinner]) hembedded hms
      rw [valueMembers_eq_mapM] at hms
      intro ns hns
      rcases List.mem_cons.1 hns with rfl | hns
      · exact hself
      · obtain ⟨m, hm, hns⟩ := mem_objectsOfMembers.1 hns
        obtain ⟨⟨k, d⟩, hd, hdv⟩ := exists_of_mem_mapM_ok hms (SortedMap.mem_of_mem_toList_ofList hm)
        exact forall_objects_of_value hobject hinner hread d (valueMember_eq_ok.1 hdv).2 ns hns
termination_by sizeOf d
decreasing_by
  · have := List.sizeOf_lt_of_mem hd; simp; omega
  · have := List.sizeOf_lt_of_mem hd; simp at *; omega

/-- A reader that unpacks what is embedded leaves nothing embedded behind. -/
theorem unpacked_of_value {r : Reading} {read : String → Except Fault Value} (hr : r.embedded = some read)
    (hread : ∀ text v, read text = .ok v → v.Unpacked) (d : Draft) {v : Value} (h : d.value r = .ok v) : v.Unpacked :=
  forall_objects_of_value (fun _ _ _ hr hnone hms => exists_ne_of_embeddedValue_eq_none hr hnone hms) hr hread d h

/-- The names in what a reader makes ascend. -/
theorem ordered_of_value {r : Reading} {read : String → Except Fault Value} (hr : r.embedded = some read)
    (hread : ∀ text v, read text = .ok v → v.Ordered) (d : Draft) {v : Value} (h : d.value r = .ok v) : v.Ordered :=
  forall_objects_of_value (fun _ _ ms _ _ _ => (SortedMap.ofList ms).ordered) hr hread d h

/-- Of members with the reserved name in front a reader makes something only if it is the only name, and a text is under
it. -/
theorem exists_text_of_reserved {r : Reading} (hr : r.embedded.isSome) {members : List (String × Draft)}
    (hreserved : Reserved (members.map Prod.fst)) {w : Value} (h : (Draft.ofMembers members).value r = .ok w) :
    ∃ d text, members = [(embeddedName, d)] ∧ d.text = .ok text := by
  simp only [Draft.ofMembers, Draft.value, bind_eq_ok] at h
  obtain ⟨inner, hinner, embedded, hembedded, -⟩ := h
  have hinner : inner.embedded.isSome := by rwa [Reading.embedded_of_inside hinner]
  cases embedded with
  | some w =>
    obtain ⟨-, k, d, text, -, hmembers, -, htext, -⟩ := embeddedValue_eq_some_iff.1 hembedded
    obtain ⟨⟨name, d⟩, rfl, hm⟩ := List.map_eq_singleton_iff.1 hmembers
    cases hm
    obtain rfl : name = embeddedName := by simpa [Reserved] using hreserved
    exact ⟨_, text, rfl, htext⟩
  | none =>
    rcases (embeddedValue_eq_none_iff hinner).1 hembedded with hnil | ⟨k, d, rest, name, hcons, hname, hne⟩
    · rw [List.map_eq_nil_iff.1 hnil] at hreserved
      cases hreserved
    · obtain ⟨m, rest, rfl, hm, -⟩ := List.map_eq_cons_iff.1 hcons
      cases hm
      cases hname
      exact absurd hreserved (by simpa [Reserved] using hne)

/-- Of the members of an object that was unpacked the reserved name is not in front, if a reader makes something of them. -/
theorem not_reserved_of_unpacked {r : Reading} (hr : r.embedded.isSome) {members : List (String × Value)}
    (hunpacked : (Value.object members).Unpacked) {draft : Value → Draft} {w : Value}
    (h : (Draft.ofMembers (members.map fun m => (m.1, draft m.2))).value r = .ok w) : ¬Reserved (members.map Prod.fst) := by
  intro hreserved
  obtain ⟨m, hm, hne⟩ := (Value.unpacked_object.1 hunpacked).1 hreserved
  obtain ⟨d, text, hsingle, -⟩ := exists_text_of_reserved hr (by rwa [List.map_map]) h
  obtain ⟨b, rfl, hb⟩ := List.map_eq_singleton_iff.1 hsingle
  rw [List.mem_singleton.1 hm] at hne
  exact hne (congrArg Prod.fst hb)

/-- A value that was unpacked, and of whose draft a reader makes something, has nothing embedded in it. -/
theorem not_embeds_of_unpacked {v w : Value} {r : Reading} (hr : r.embedded.isSome) (h : v.draft.value r = .ok w)
    (hunpacked : v.Unpacked) : ¬v.Embeds := by
  induction v using Value.induct generalizing r w with
  | null | bool | number | string => simp [Value.Embeds, Value.objects]
  | array items ih =>
    simp only [Value.draft, draftItems_eq_map, Draft.value, bind_eq_ok, valueItems_eq_mapM, List.mapM_map] at h
    obtain ⟨inner, hinner, vs, hvs, -⟩ := h
    rw [Value.embeds_array]
    rintro ⟨v, hv, hembeds⟩
    obtain ⟨w, hw⟩ := exists_of_mapM_ok hvs hv
    exact ih v hv (by rwa [Reading.embedded_of_inside hinner]) hw (Value.unpacked_array.1 hunpacked v hv) hembeds
  | object members ih =>
    rw [draft_object] at h
    have hreserved := not_reserved_of_unpacked hr hunpacked h
    rw [Value.embeds_object, not_or]
    refine ⟨hreserved, ?_⟩
    rintro ⟨m, hm, hembeds⟩
    obtain ⟨inner, hinner⟩ : ∃ inner, r.inside = .ok inner := by
      obtain ⟨inner, hinner, -⟩ := bind_eq_ok.1 h
      exact ⟨inner, hinner⟩
    rw [value_ofMembers hinner (by rwa [List.map_map]), List.mapM_map] at h
    obtain ⟨ms, hms, -⟩ := map_eq_ok.1 h
    obtain ⟨b, hb⟩ := exists_of_mapM_ok hms hm
    obtain ⟨w, hw, -⟩ := map_eq_ok.1 hb
    exact ih m hm (by rwa [Reading.embedded_of_inside hinner]) hw ((Value.unpacked_object.1 hunpacked).2 m hm) hembeds

/-- Reading out of a text in which so many more documents may be embedded, and so many containers entered. -/
def Reading.nested (documents room : Nat) : Reading :=
  ⟨some room, .malformed, .malformed, some fun text => Value.ofNested documents (Text.glyphsOf text)⟩

theorem Reading.inside_nested (documents room : Nat) :
    (Reading.nested documents (room + 1)).inside = .ok (.nested documents room) := rfl

theorem Reading.inside_value : Reading.value.inside = .ok Reading.value := rfl

theorem Reading.allows_nested {documents room depth : Nat} (h : depth ≤ room) :
    (Reading.nested documents room).Allows depth := by
  rintro _ ⟨⟩
  exact h

/-- What a reader of texts makes of a text is made of a draft. -/
theorem ofNested_induct {P : Value → Prop}
    (hvalue : ∀ (r : Reading) (read : String → Except Fault Value), r.embedded = some read →
      (∀ text v, read text = .ok v → P v) → ∀ (d : Draft) (v : Value), d.value r = .ok v → P v)
    {documents : Nat} {gs : List Text.Glyph} {v : Value} (h : Value.ofNested documents gs = .ok v) : P v := by
  induction documents generalizing gs v with
  | zero => cases h
  | succ documents ih =>
    obtain ⟨w, hw, -, -, hv⟩ := by simpa only [Value.ofNested, Document.read, bind_eq_ok] using h
    cases hv
    exact hvalue _ _ rfl (fun _ _ => ih) _ _ hw

/-- Nothing is embedded any more in the value of a text. -/
theorem unpacked_of_ofNested {documents : Nat} {gs : List Text.Glyph} {v : Value}
    (h : Value.ofNested documents gs = .ok v) : v.Unpacked :=
  ofNested_induct (fun _ _ hr hread d _ hd => unpacked_of_value hr hread d hd) h

theorem unpacked_of_value_nested {documents room : Nat} {d : Draft} {v : Value}
    (h : d.value (.nested documents room) = .ok v) : v.Unpacked :=
  unpacked_of_value rfl (fun _ _ => unpacked_of_ofNested) d h

/-- The names in the value of a text ascend. -/
theorem ordered_of_ofNested {documents : Nat} {gs : List Text.Glyph} {v : Value}
    (h : Value.ofNested documents gs = .ok v) : v.Ordered :=
  ofNested_induct (fun _ _ hr hread d _ hd => ordered_of_value hr hread d hd) h

theorem ordered_of_value_nested {documents room : Nat} {d : Draft} {v : Value}
    (h : d.value (.nested documents room) = .ok v) : v.Ordered :=
  ordered_of_value rfl (fun _ _ => ordered_of_ofNested) d h

theorem ordered_of_value_value {d : Draft} {v : Value} (h : d.value .value = .ok v) : v.Ordered :=
  ordered_of_value rfl (fun _ _ => ordered_of_ofNested) d h

/-! ### What comes back -/

/-- Whether a value comes back when it is written and its text is read where so many containers may be entered: its numbers
are read back, it is not nested deeper, and nothing is embedded in it. -/
structure Value.Survives (v : Value) (room : Nat) : Prop where
  numbers : ∀ n ∈ v.numbers, ReadsAs n.write n
  depth : v.depth ≤ room
  plain : ¬v.Embeds

theorem depthOfItems_le_iff {items : List Value} {room : Nat} :
    depthOfItems items ≤ room ↔ ∀ v ∈ items, v.depth ≤ room := by
  induction items with
  | nil => simp [depthOfItems]
  | cons v rest ih => rw [depthOfItems, Nat.max_le, ih, List.forall_mem_cons]

theorem depthOfMembers_le_iff {members : List (String × Value)} {room : Nat} :
    depthOfMembers members ≤ room ↔ ∀ m ∈ members, m.2.depth ≤ room := by
  induction members with
  | nil => simp [depthOfMembers]
  | cons m rest ih => obtain ⟨k, v⟩ := m; rw [depthOfMembers, Nat.max_le, ih, List.forall_mem_cons]

theorem Value.survives_array {items : List Value} {room : Nat} (h : ∀ v ∈ items, v.Survives room) :
    (Value.array items).Survives (room + 1) where
  numbers n hn := by
    rw [Value.numbers, mem_numbersOfItems] at hn
    obtain ⟨v, hv, hn⟩ := hn
    exact (h v hv).numbers n hn
  depth := by
    rw [Value.depth]
    exact Nat.succ_le_succ (depthOfItems_le_iff.2 fun v hv => (h v hv).depth)
  plain hembeds := by
    obtain ⟨v, hv, hembeds⟩ := Value.embeds_array.1 hembeds
    exact (h v hv).plain hembeds

theorem Value.survives_object {members : List (String × Value)} {room : Nat} (hnames : ¬Reserved (members.map Prod.fst))
    (h : ∀ m ∈ members, m.2.Survives room) : (Value.object members).Survives (room + 1) where
  numbers n hn := by
    rw [Value.numbers, mem_numbersOfMembers] at hn
    obtain ⟨m, hm, hn⟩ := hn
    exact (h m hm).numbers n hn
  depth := by
    rw [Value.depth]
    exact Nat.succ_le_succ (depthOfMembers_le_iff.2 fun m hm => (h m hm).depth)
  plain hembeds := by
    rcases Value.embeds_object.1 hembeds with hreserved | ⟨m, hm, hembeds⟩
    · exact hnames hreserved
    · exact (h m hm).plain hembeds

/-- A value that comes back of its text survives. -/
theorem survives_of_value_written {v : Value} (h : v.Ordered) (hunpacked : v.Unpacked) {documents room : Nat}
    (hread : v.written.value (.nested documents room) = .ok v) : v.Survives room := by
  induction v using Value.induct generalizing room with
  | null | bool | string => exact ⟨fun _ hn => (List.not_mem_nil hn).elim, Nat.zero_le _, by simp [Value.Embeds, Value.objects]⟩
  | number n =>
    refine ⟨fun m hm => ?_, Nat.zero_le _, by simp [Value.Embeds, Value.objects]⟩
    rw [Value.numbers, List.mem_singleton] at hm
    exact hm ▸ value_numberDraft_eq_ok.1 hread
  | array items ih =>
    cases room with
    | zero => cases hread
    | succ room =>
      rw [Value.written, writtenItems_eq_map, value_array (Reading.inside_nested documents room)] at hread
      obtain ⟨vs, hvs, heq⟩ := map_eq_ok.1 hread
      cases heq
      rw [mapM_eq_ok_iff, List.forall₂_map_left_iff, List.forall₂_same] at hvs
      exact Value.survives_array fun v hv =>
        ih v hv (Value.ordered_array.1 h v hv) (Value.unpacked_array.1 hunpacked v hv) (hvs v hv)
  | object members ih =>
    cases room with
    | zero => cases hread
    | succ room =>
      rw [written_object] at hread
      have hnames := not_reserved_of_unpacked rfl hunpacked hread
      obtain ⟨hnamesOrdered, hordered⟩ := Value.ordered_object.1 h
      rw [value_ofMembers (Reading.inside_nested documents room) (by rwa [List.map_map])] at hread
      obtain ⟨ms, hms, heq⟩ := map_eq_ok.1 hread
      rw [mapM_eq_ok_iff, List.forall₂_map_left_iff] at hms
      have hmsNames : members.map Prod.fst = ms.map Prod.fst :=
        names_eq_of_forall₂ hms fun a b hab => by
          obtain ⟨w, -, rfl⟩ := map_eq_ok.1 hab
          rfl
      rw [SortedMap.toList_ofList (hmsNames ▸ hnamesOrdered)] at heq
      cases heq
      rw [List.forall₂_same] at hms
      refine Value.survives_object hnames fun m hm => ?_
      obtain ⟨w, hw, heq⟩ := map_eq_ok.1 (hms m hm)
      obtain rfl : w = m.2 := congrArg Prod.snd heq
      exact ih m hm (hordered m hm) ((Value.unpacked_object.1 hunpacked).2 m hm) hw

/-- **A value comes back of its text exactly if it survives,** if the names in it ascend. -/
theorem value_written_iff {v : Value} (h : v.Ordered) {documents room : Nat} :
    v.written.value (.nested documents room) = .ok v ↔ v.Survives room := by
  constructor
  · exact fun hread => survives_of_value_written h (unpacked_of_value_nested hread) hread
  · intro hsurvives
    rw [written_eq_draft hsurvives.numbers]
    exact value_draft h hsurvives.plain (Reading.allows_nested hsurvives.depth)

end Json
end Suggest
