/-
# Written values are read back

A value that is written and scanned again has a draft (`Value.written`, `spells_write`), in which a number stands as the text
of the number says.  If its numbers are read back, that is the draft that the value has by itself, and a reader makes the value
of it, if the value is one that documents have (`value_draft`):

| what | why |
| --- | --- |
| its numbers are read back (`Number.ReadsBack`) | integers of 64 bits are, floats as far as the codec of decimals goes |
| the names in its objects ascend (`Value.Ordered`) | a reader sorts them and keeps one of each |
| no object has the reserved name in front (`Value.Embeds`) | it would stand for the document in its text |

The last condition is needed, as `Suggest.Proofs.Json.Embedded` shows.
-/

import Suggest.Proofs.Json.Spelling
import Suggest.Proofs.Outcome
import Suggest.Proofs.SortedMap

namespace Suggest
namespace Json

/-- What holds of a value if it holds of what it is made of, holds of every value. -/
@[elab_as_elim]
theorem Value.induct {motive : Value → Prop} (null : motive .null) (bool : ∀ b, motive (.bool b))
    (number : ∀ n, motive (.number n)) (string : ∀ s, motive (.string s))
    (array : ∀ items, (∀ v ∈ items, motive v) → motive (.array items))
    (object : ∀ members, (∀ m ∈ members, motive m.2) → motive (.object members)) (v : Value) : motive v :=
  match v with
  | .null => null
  | .bool b => bool b
  | .number n => number n
  | .string s => string s
  | .array items => array items fun v _ => Value.induct null bool number string array object v
  | .object members => object members fun m _ => Value.induct null bool number string array object m.2
termination_by sizeOf v
decreasing_by
  · next hv => have := List.sizeOf_lt_of_mem hv; simp; omega
  · next hm => have := List.sizeOf_lt_of_mem hm; cases m; simp at *; omega

theorem draftItems_eq_map (items : List Value) : draftItems items = items.map Value.draft := by
  induction items with
  | nil => rfl
  | cons v rest ih => rw [draftItems, ih, List.map_cons]

theorem draftMembers_eq_map (members : List (String × Value)) :
    draftMembers members = members.map fun m => (.ofText m.1, m.2.draft) := by
  induction members with
  | nil => rfl
  | cons m rest ih => obtain ⟨name, v⟩ := m; rw [draftMembers, ih, List.map_cons]

theorem writeItems_eq_map (items : List Value) : writeItems items = items.map Value.write := by
  induction items with
  | nil => rfl
  | cons v rest ih => rw [writeItems, ih, List.map_cons]

theorem writeMembers_eq_map (members : List (String × Value)) :
    writeMembers members = members.map fun m => (m.1, m.2.write) := by
  induction members with
  | nil => rfl
  | cons m rest ih => obtain ⟨name, v⟩ := m; rw [writeMembers, ih, List.map_cons]

mutual

/-- The draft of the text of a value. -/
def Value.written : Value → Draft
  | .null => .null
  | .bool b => .bool b
  | .number n => numberDraft n.write
  | .string s => .ofText s
  | .array items => .array (writtenItems items) none
  | .object members => .object (writtenMembers members) none

/-- The drafts of the texts of the items of an array. -/
def writtenItems : List Value → List Draft
  | [] => []
  | v :: rest => v.written :: writtenItems rest

/-- The drafts of the texts of the members of an object. -/
def writtenMembers : List (String × Value) → List (Draft × Draft)
  | [] => []
  | (name, v) :: rest => (.ofText name, v.written) :: writtenMembers rest

end

theorem writtenItems_eq_map (items : List Value) : writtenItems items = items.map Value.written := by
  induction items with
  | nil => rfl
  | cons v rest ih => rw [writtenItems, ih, List.map_cons]

theorem writtenMembers_eq_map (members : List (String × Value)) :
    writtenMembers members = members.map fun m => (.ofText m.1, m.2.written) := by
  induction members with
  | nil => rfl
  | cons m rest ih => obtain ⟨name, v⟩ := m; rw [writtenMembers, ih, List.map_cons]

theorem depth_le_depthOfItems {items : List Value} {v : Value} (h : v ∈ items) : v.depth ≤ depthOfItems items := by
  induction items with
  | nil => cases h
  | cons w rest ih =>
    rw [depthOfItems]
    rcases List.mem_cons.1 h with rfl | h
    · exact Nat.le_max_left ..
    · exact Nat.le_trans (ih h) (Nat.le_max_right ..)

theorem depth_le_depthOfMembers {members : List (String × Value)} {m : String × Value} (h : m ∈ members) :
    m.2.depth ≤ depthOfMembers members := by
  induction members with
  | nil => cases h
  | cons w rest ih =>
    obtain ⟨k, w⟩ := w
    rw [depthOfMembers]
    rcases List.mem_cons.1 h with rfl | h
    · exact Nat.le_max_left ..
    · exact Nat.le_trans (ih h) (Nat.le_max_right ..)

mutual

/-- The numbers in a value. -/
def Value.numbers : Value → List Number
  | .number n => [n]
  | .array items => numbersOfItems items
  | .object members => numbersOfMembers members
  | _ => []

/-- The numbers in a list of values. -/
def numbersOfItems : List Value → List Number
  | [] => []
  | v :: rest => v.numbers ++ numbersOfItems rest

/-- The numbers in a list of members. -/
def numbersOfMembers : List (String × Value) → List Number
  | [] => []
  | (_, v) :: rest => v.numbers ++ numbersOfMembers rest

end

theorem mem_numbersOfItems {n : Number} {items : List Value} :
    n ∈ numbersOfItems items ↔ ∃ v ∈ items, n ∈ v.numbers := by
  induction items with
  | nil => simp [numbersOfItems]
  | cons v rest ih => simp [numbersOfItems, ih]

theorem mem_numbersOfMembers {n : Number} {members : List (String × Value)} :
    n ∈ numbersOfMembers members ↔ ∃ m ∈ members, n ∈ m.2.numbers := by
  induction members with
  | nil => simp [numbersOfMembers]
  | cons m rest ih => obtain ⟨k, v⟩ := m; simp [numbersOfMembers, ih]

mutual

/-- The members of every object in a value, its own ones first. -/
def Value.objects : Value → List (List (String × Value))
  | .array items => objectsOfItems items
  | .object members => members :: objectsOfMembers members
  | _ => []

/-- The members of every object in a list of values. -/
def objectsOfItems : List Value → List (List (String × Value))
  | [] => []
  | v :: rest => v.objects ++ objectsOfItems rest

/-- The members of every object in a list of members. -/
def objectsOfMembers : List (String × Value) → List (List (String × Value))
  | [] => []
  | (_, v) :: rest => v.objects ++ objectsOfMembers rest

end

theorem mem_objectsOfItems {ms : List (String × Value)} {items : List Value} :
    ms ∈ objectsOfItems items ↔ ∃ v ∈ items, ms ∈ v.objects := by
  induction items with
  | nil => simp [objectsOfItems]
  | cons v rest ih => simp [objectsOfItems, ih]

theorem mem_objectsOfMembers {ms members : List (String × Value)} :
    ms ∈ objectsOfMembers members ↔ ∃ m ∈ members, ms ∈ m.2.objects := by
  induction members with
  | nil => simp [objectsOfMembers]
  | cons m rest ih => obtain ⟨k, v⟩ := m; simp [objectsOfMembers, ih]

/-- Whether the reserved name stands in front, so that the members with the names stand for something else. -/
def Reserved (names : List String) : Prop := names.head? = some embeddedName

instance (names : List String) : Decidable (Reserved names) := inferInstanceAs (Decidable (_ = _))

/-- Whether there is an object in the value that has the reserved name in front. -/
def Value.Embeds (v : Value) : Prop := ∃ members ∈ v.objects, Reserved (members.map Prod.fst)

instance (v : Value) : Decidable v.Embeds := inferInstanceAs (Decidable (∃ _ ∈ _, _))

/-- A number as values have them: an integer that fits 64 bits, or a float that its decimals bring back. -/
def Number.ReadsBack : Number → Prop
  | .integer n => -(1 <<< 63) ≤ n ∧ n ≤ Numeral.maxSignificand
  | .float x => ReadsAs (double x) (.float x)

instance : (n : Number) → Decidable n.ReadsBack
  | .integer _ => inferInstanceAs (Decidable (_ ∧ _))
  | .float _ => inferInstanceAs (Decidable (ReadsAs _ _))

/-- A value as documents have them: its numbers are read back, and the names in its objects ascend. -/
structure Value.Proper (v : Value) : Prop where
  numbers : ∀ n ∈ v.numbers, n.ReadsBack
  ordered : ∀ members ∈ v.objects, (members.map Prod.fst).Pairwise (· < ·)

/-- Whether the names in every object of a value ascend. -/
def Value.Ordered (v : Value) : Prop := ∀ members ∈ v.objects, (members.map Prod.fst).Pairwise (· < ·)

theorem Value.ordered_array {items : List Value} : (Value.array items).Ordered ↔ ∀ v ∈ items, v.Ordered := by
  simp only [Value.Ordered, Value.objects, mem_objectsOfItems]
  constructor
  · intro h v hv ms hms
    exact h ms ⟨v, hv, hms⟩
  · rintro h ms ⟨v, hv, hms⟩
    exact h v hv ms hms

theorem Value.ordered_object {members : List (String × Value)} :
    (Value.object members).Ordered ↔ (members.map Prod.fst).Pairwise (· < ·) ∧ ∀ m ∈ members, m.2.Ordered := by
  simp only [Value.Ordered, Value.objects, List.mem_cons, mem_objectsOfMembers]
  constructor
  · intro h
    exact ⟨h members (.inl rfl), fun m hm ms hms => h ms (.inr ⟨m, hm, hms⟩)⟩
  · rintro ⟨hfirst, hrest⟩ ms (rfl | ⟨m, hm, hms⟩)
    · exact hfirst
    · exact hrest m hm ms hms

theorem Value.embeds_array {items : List Value} : (Value.array items).Embeds ↔ ∃ v ∈ items, v.Embeds := by
  simp only [Value.Embeds, Value.objects, mem_objectsOfItems]
  constructor
  · rintro ⟨ms, ⟨v, hv, hms⟩, h⟩
    exact ⟨v, hv, ms, hms, h⟩
  · rintro ⟨v, hv, ms, hms, h⟩
    exact ⟨ms, ⟨v, hv, hms⟩, h⟩

theorem Value.embeds_object {members : List (String × Value)} :
    (Value.object members).Embeds ↔ Reserved (members.map Prod.fst) ∨ ∃ m ∈ members, m.2.Embeds := by
  simp only [Value.Embeds, Value.objects, List.mem_cons, mem_objectsOfMembers]
  constructor
  · rintro ⟨ms, rfl | ⟨m, hm, hms⟩, h⟩
    · exact .inl h
    · exact .inr ⟨m, hm, ms, hms, h⟩
  · rintro (h | ⟨m, hm, ms, hms, h⟩)
    · exact ⟨members, .inl rfl, h⟩
    · exact ⟨ms, .inr ⟨m, hm, hms⟩, h⟩

/-! ### What is written -/

theorem readsAs_write {n : Number} (h : n.ReadsBack) : ReadsAs n.write n := by
  cases n with
  | float x => exact h
  | integer n =>
    obtain ⟨hlow, hhigh⟩ := h
    rw [Number.write, integer]
    split
    · next hneg =>
      have hn : -(n.natAbs : Int) = n := by omega
      have habs : n.natAbs ≤ 1 <<< 63 := by omega
      have := readsAs_negative (n := n.natAbs) (by omega) habs
      rwa [hn] at this
    · next hpos =>
      have hn : (n.natAbs : Int) = n := by omega
      have habs : n.natAbs ≤ Numeral.maxSignificand := by omega
      simpa [hn] using readsAs_natural habs

/-- **A written value is scanned as the draft of its text.** -/
theorem spells_write (v : Value) : Spells v.write v.written := by
  induction v using Value.induct with
  | null => exact spells_null
  | bool b => exact spells_bool b
  | number n =>
    cases n with
    | integer n => exact spells_numeral (isNumeral_integer n)
    | float x => exact spells_binary .double x
  | string s => exact spells_string s
  | array items ih =>
    rw [Value.write, writeItems_eq_map, Value.written, writtenItems_eq_map]
    exact spells_array ih
  | object members ih =>
    rw [Value.write, writeMembers_eq_map, Value.written, writtenMembers_eq_map]
    exact spells_object ih

/-- If the numbers in a value are read back, the draft of its text is its own one. -/
theorem written_eq_draft {v : Value} (h : ∀ n ∈ v.numbers, ReadsAs n.write n) : v.written = v.draft := by
  induction v using Value.induct with
  | null => rfl
  | bool b => rfl
  | number n => exact numberDraft_of_readsAs (h n (by simp [Value.numbers]))
  | string s => rfl
  | array items ih =>
    rw [Value.written, writtenItems_eq_map, Value.draft, draftItems_eq_map, List.map_congr_left fun v hv => ih v hv ?_]
    exact fun n hn => h n (by rw [Value.numbers, mem_numbersOfItems]; exact ⟨v, hv, hn⟩)
  | object members ih =>
    rw [Value.written, writtenMembers_eq_map, Value.draft, draftMembers_eq_map, List.map_congr_left fun m hm => ?_]
    rw [ih m hm fun n hn => h n (by rw [Value.numbers, mem_numbersOfMembers]; exact ⟨m, hm, hn⟩)]

/-! ### What is read -/

/-- The object of members with faultless names. -/
def Draft.ofMembers (members : List (String × Draft)) : Draft :=
  .object (members.map fun m => (.ofText m.1, m.2)) none

theorem draft_object (members : List (String × Value)) :
    (Value.object members).draft = .ofMembers (members.map fun m => (m.1, m.2.draft)) := by
  rw [Value.draft, draftMembers_eq_map, Draft.ofMembers, List.map_map]
  rfl

theorem written_object (members : List (String × Value)) :
    (Value.object members).written = .ofMembers (members.map fun m => (m.1, m.2.written)) := by
  rw [Value.written, writtenMembers_eq_map, Draft.ofMembers, List.map_map]
  rfl

/-- A number is read out of the draft of a text exactly if the text reads as the number. -/
theorem value_numberDraft_eq_ok {cs : List Char} {r : Reading} {n : Number} :
    (numberDraft cs).value r = .ok (.number n) ↔ ReadsAs cs n := by
  rcases numberDraft_cases cs with ⟨m, hm, hdraft⟩ | ⟨hnone, hdraft⟩
  · rw [hdraft, ReadsAs, hm]
    simp [Draft.value, Except.map]
  · rw [ReadsAs, hnone]
    rcases hdraft with hdraft | hdraft <;> rw [hdraft] <;> simp [Draft.value, Except.map]

/-- Whether so many containers may be entered, one inside the other. -/
def Reading.Allows (r : Reading) (depth : Nat) : Prop := ∀ room, r.room = some room → depth ≤ room

theorem Reading.allows_value (depth : Nat) : Reading.value.Allows depth := fun _ h => nomatch h

theorem Reading.Allows.mono {r : Reading} {depth deeper : Nat} (h : r.Allows deeper) (hle : depth ≤ deeper) :
    r.Allows depth := fun room hroom => Nat.le_trans hle (h room hroom)

/-- A container may be entered if there is room for one. -/
theorem Reading.Allows.inside {r : Reading} {depth : Nat} (h : r.Allows (depth + 1)) :
    ∃ inner, r.inside = .ok inner ∧ inner.embedded = r.embedded ∧ inner.Allows depth := by
  obtain ⟨room, surplus, misplaced, embedded⟩ := r
  cases room with
  | none => exact ⟨_, rfl, rfl, fun _ h => nomatch h⟩
  | some room =>
    obtain ⟨room, rfl⟩ := Nat.exists_eq_add_of_le' (Nat.le_trans (Nat.le_add_left 1 depth) (h room rfl))
    refine ⟨_, rfl, rfl, ?_⟩
    rintro _ ⟨⟩
    exact Nat.le_of_succ_le_succ (h _ rfl)

theorem valueItems_eq_mapM (r : Reading) (items : List Draft) : valueItems r items = items.mapM (Draft.value r) := by
  induction items with
  | nil => rfl
  | cons d rest ih => rw [valueItems, ih, List.mapM_cons]

/-- The name and the value of a member. -/
def valueMember (r : Reading) (m : Draft × Draft) : Except Fault (String × Value) :=
  do return (← m.1.name, ← m.2.value r)

theorem valueMembers_eq_mapM (r : Reading) (members : List (Draft × Draft)) :
    valueMembers r members = members.mapM (valueMember r) := by
  induction members with
  | nil => rfl
  | cons m rest ih =>
    obtain ⟨k, d⟩ := m
    rw [valueMembers, ih, List.mapM_cons, valueMember]
    cases k.name with
    | error fault => rfl
    | ok name => cases d.value r <;> rfl

theorem valueMember_eq_ok {r : Reading} {m : Draft × Draft} {name : String} {v : Value} :
    valueMember r m = .ok (name, v) ↔ m.1.name = .ok name ∧ m.2.value r = .ok v := by
  simp only [valueMember, bind_eq_ok, pure_eq_ok, Prod.mk.injEq]
  constructor
  · rintro ⟨_, hname, _, hv, rfl, rfl⟩
    exact ⟨hname, hv⟩
  · rintro ⟨hname, hv⟩
    exact ⟨name, hname, v, hv, rfl, rfl⟩

theorem valueMember_ofText (r : Reading) (name : String) (d : Draft) :
    valueMember r (.ofText name, d) = (d.value r).map (name, ·) := by
  cases hd : d.value r <;> simp [valueMember, Draft.name, Draft.ofText, hd, bind, Except.bind, Except.map, pure, Except.pure]

/-- Nothing is embedded in members with another name in front. -/
theorem embeddedValue_of_not_reserved (r : Reading) {members : List (String × Draft)}
    (h : ¬Reserved (members.map Prod.fst)) :
    embeddedValue r (members.map fun m => (.ofText m.1, m.2)) = .ok none := by
  cases members with
  | nil => rfl
  | cons m rest =>
    have hname : m.1 ≠ embeddedName := by simpa [Reserved] using h
    rw [List.map_cons, embeddedValue]
    cases r.embedded with
    | none => rfl
    | some read => simp [Draft.name, Draft.ofText, hname, bind, Except.bind, pure, Except.pure]

theorem value_array {r inner : Reading} (h : r.inside = .ok inner) (items : List Draft) :
    (Draft.array items none).value r = Except.map .array (items.mapM (Draft.value inner)) := by
  rw [Draft.value, h, ← valueItems_eq_mapM]
  cases hv : valueItems inner items <;> simp [hv, bind, Except.bind, proceed, Except.map, pure, Except.pure]

/-- Nor is anything embedded where that is not asked for. -/
theorem embeddedValue_of_plain {r : Reading} (h : r.embedded = none) (members : List (Draft × Draft)) :
    embeddedValue r members = .ok none := by
  cases members with
  | nil => rfl
  | cons m rest => rw [embeddedValue, h]

theorem value_ofMembers_of_eq_none {r inner : Reading} (h : r.inside = .ok inner) {members : List (String × Draft)}
    (hnone : embeddedValue inner (members.map fun m => (.ofText m.1, m.2)) = .ok none) :
    (Draft.ofMembers members).value r =
      Except.map (fun ms => .object (SortedMap.ofList ms).toList)
        (members.mapM fun m => (m.2.value inner).map (m.1, ·)) := by
  have hmembers : valueMembers inner (members.map fun m => (.ofText m.1, m.2)) =
      members.mapM fun m => (m.2.value inner).map (m.1, ·) := by
    rw [valueMembers_eq_mapM, List.mapM_map]
    simp only [Function.comp_def, valueMember_ofText]
  rw [Draft.ofMembers, Draft.value, h, ← hmembers]
  cases hv : valueMembers inner (members.map fun m => (.ofText m.1, m.2)) <;>
    simp [hv, hnone, bind, Except.bind, proceed, Except.map, pure, Except.pure]

theorem value_ofMembers {r inner : Reading} (h : r.inside = .ok inner) {members : List (String × Draft)}
    (hnames : ¬Reserved (members.map Prod.fst)) :
    (Draft.ofMembers members).value r =
      Except.map (fun ms => .object (SortedMap.ofList ms).toList)
        (members.mapM fun m => (m.2.value inner).map (m.1, ·)) :=
  value_ofMembers_of_eq_none h (embeddedValue_of_not_reserved inner hnames)

/-- A value is read back out of its own draft, if nothing in it is taken for an embedded one. -/
theorem value_draft_of {v : Value} (h : v.Ordered) {r : Reading} (hplain : r.embedded = none ∨ ¬v.Embeds)
    (hr : r.Allows v.depth) : v.draft.value r = .ok v := by
  induction v using Value.induct generalizing r with
  | null => rfl
  | bool b => rfl
  | number n => rfl
  | string s => rfl
  | array items ih =>
    obtain ⟨inner, hinside, hembedded, hinner⟩ := Reading.Allows.inside hr
    rw [Value.embeds_array, not_exists] at hplain
    rw [Value.ordered_array] at h
    have hitems : items.mapM (fun v => v.draft.value inner) = .ok (items.map id) :=
      mapM_ok fun v hv => ih v hv (h v hv) (hplain.imp hembedded.trans fun hembeds he => hembeds v ⟨hv, he⟩)
        (hinner.mono (depth_le_depthOfItems hv))
    rw [Value.draft, draftItems_eq_map, value_array hinside, List.mapM_map]
    simp only [Function.comp_def, hitems, List.map_id, Except.map]
  | object members ih =>
    obtain ⟨inner, hinside, hembedded, hinner⟩ := Reading.Allows.inside hr
    rw [Value.embeds_object, not_or, not_exists] at hplain
    rw [Value.ordered_object] at h
    have hmembers : (members.mapM fun m => (m.2.draft.value inner).map (m.1, ·)) = .ok (members.map id) := by
      refine mapM_ok fun m hm => ?_
      rw [ih m hm (h.2 m hm) (hplain.imp hembedded.trans fun hembeds he => hembeds.2 m ⟨hm, he⟩)
        (hinner.mono (depth_le_depthOfMembers hm))]
      rfl
    have hnone : embeddedValue inner ((members.map fun m => (m.1, m.2.draft)).map fun m => (.ofText m.1, m.2)) = .ok none :=
      hplain.elim (fun hplain => embeddedValue_of_plain (hembedded.trans hplain) _) fun hembeds =>
        embeddedValue_of_not_reserved inner (by rw [List.map_map]; exact hembeds.1)
    rw [draft_object, value_ofMembers_of_eq_none hinside hnone, List.mapM_map]
    simp only [Function.comp_def, hmembers, List.map_id]
    rw [Except.map, SortedMap.toList_ofList h.1]

/-- **A value is read back out of its own draft,** unless something in it has the reserved name in front. -/
theorem value_draft {v : Value} (h : v.Ordered) (hembeds : ¬v.Embeds) {r : Reading} (hr : r.Allows v.depth) :
    v.draft.value r = .ok v :=
  value_draft_of h (.inr hembeds) hr

end Json
end Suggest
