/-
# Members in any order

Reading one member after another into the slots of a record, two of them may change places (`place_swap`,
`placeMember_swap`), so a record is read alike whatever order the members of its object are in (`read_object_perm`).

A tagged record is read alike as well, out of a text and out of the value of the text (`read_written_iff`).  Out of the text,
the members stand in their own order and are read as values with nothing embedded in them.  The value has them in the order of
their names, and whatever was embedded in it has been put in its place, so this needs a value in which nothing is.
-/

import Suggest.Json.Record
import Suggest.Proofs.Json.Embedded

namespace Suggest
namespace Json

namespace Fields

variable {σ τ α : Type} {strict : Bool} {r : Reading}

/-- Whether a name is that of a field does not depend on what is read. -/
theorem place_eq_none {name : String} {d e : Draft} : {σ τ : Type} → {fields : Fields σ τ} → {slots other : σ} →
    fields.place r name d slots = .ok none → fields.place r name e other = .ok none
  | _, _, .nil, (), (), _ => rfl
  | _, _, .cons field rest, (slot, slots), (slot', slots'), h => by
    rw [place] at h ⊢
    by_cases hname : field.names.contains name
    · rw [if_pos hname] at h
      split at h
      · cases h
      · obtain ⟨a, -, heq⟩ := map_eq_ok.1 h
        cases heq
    · rw [if_neg hname] at h ⊢
      obtain ⟨placed, hplaced, heq⟩ := map_eq_ok.1 h
      obtain rfl := Option.map_eq_none_iff.1 heq
      rw [place_eq_none hplaced]
      rfl

/-- A draft is read into the slot of the first field with the name, if that slot is vacant, or into one behind it. -/
theorem place_cons_eq_some {field : Field α} {rest : Fields σ τ} {name : String} {d : Draft} {slot slot' : Option α}
    {slots slots' : σ} :
    (cons field rest).place r name d (slot, slots) = .ok (some (slot', slots')) ↔
      field.names.contains name = true ∧ slot = none ∧ (∃ a, field.read r d = .ok a ∧ slot' = some a) ∧ slots' = slots ∨
      field.names.contains name = false ∧ slot' = slot ∧ rest.place r name d slots = .ok (some slots') := by
  rw [place]
  cases field.names.contains name with
  | true =>
    cases slot with
    | none => cases field.read r d <;> simp [Except.map, eq_comm]
    | some a => simp
  | false =>
    cases rest.place r name d slots with
    | error fault => simp [Except.map]
    | ok placed => cases placed <;> simp [Except.map, eq_comm]

/-- **Two drafts that are read into slots one after the other may change places.** -/
theorem place_swap {m n : String} {d e : Draft} : {σ τ : Type} → {fields : Fields σ τ} → {slots first both : σ} →
    fields.place r m d slots = .ok (some first) → fields.place r n e first = .ok (some both) →
      ∃ second, fields.place r n e slots = .ok (some second) ∧ fields.place r m d second = .ok (some both)
  | _, _, .nil, (), _, _, h, _ => nomatch h
  | _, _, .cons field rest, (slot, slots), (slot₁, slots₁), (slot₂, slots₂), hm, hn => by
    rw [place_cons_eq_some] at hm hn
    simp only [Prod.exists, place_cons_eq_some]
    rcases hm with ⟨hm, rfl, ⟨a, ha, rfl⟩, rfl⟩ | ⟨hm, rfl, hrest⟩
    · rcases hn with ⟨-, hvacant, -⟩ | ⟨hn, rfl, hrest⟩
      · cases hvacant
      · exact ⟨none, slots₂, .inr ⟨hn, rfl, hrest⟩, .inl ⟨hm, rfl, ⟨a, ha, rfl⟩, rfl⟩⟩
    · rcases hn with ⟨hn, rfl, ⟨b, hb, rfl⟩, rfl⟩ | ⟨hn, rfl, hrest'⟩
      · exact ⟨some b, slots, .inl ⟨hn, rfl, ⟨b, hb, rfl⟩, rfl⟩, .inr ⟨hm, rfl, hrest⟩⟩
      · obtain ⟨second, hsecond, hboth⟩ := place_swap hrest hrest'
        exact ⟨slot₂, second, .inr ⟨hn, rfl, hsecond⟩, .inr ⟨hm, rfl, hboth⟩⟩

/-- Read one member into its slot, or pass over it. -/
def placeMember (strict : Bool) (r : Reading) (fields : Fields σ τ) (slots : σ) (m : Draft × Draft) : Except Fault σ := do
  match ← fields.place r (← m.1.name) m.2 slots with
  | some slots => return slots
  | none => if strict then .error .mismatched else do m.2.skip; return slots

theorem placeMembers_eq_foldlM (fields : Fields σ τ) (members : List (Draft × Draft)) (slots : σ) :
    fields.placeMembers strict r members slots = members.foldlM (fields.placeMember strict r) slots := by
  induction members generalizing slots with
  | nil => rfl
  | cons m rest ih =>
    obtain ⟨k, d⟩ := m
    rw [placeMembers, List.foldlM_cons, placeMember]
    cases k.name with
    | error fault => rfl
    | ok name =>
      cases hplaced : fields.place r name d slots with
      | error fault => simp [hplaced, bind, Except.bind]
      | ok placed =>
        cases placed with
        | some placed => simp [hplaced, bind, Except.bind, pure, Except.pure, ih]
        | none => cases strict <;> cases d.skip <;> simp [hplaced, bind, Except.bind, pure, Except.pure, ih]

/-- A member is read into its slot, or it is passed over and everything stays as it is. -/
theorem placeMember_eq_ok {fields : Fields σ τ} {slots after : σ} {m : Draft × Draft} :
    fields.placeMember strict r slots m = .ok after ↔ ∃ name, m.1.name = .ok name ∧
      (fields.place r name m.2 slots = .ok (some after) ∨
        fields.place r name m.2 slots = .ok none ∧ strict = false ∧ m.2.skip = .ok () ∧ after = slots) := by
  simp only [placeMember, bind_eq_ok]
  refine exists_congr fun name => and_congr_right fun _ => ?_
  cases hplaced : fields.place r name m.2 slots with
  | error fault => simp
  | ok placed =>
    cases placed with
    | some placed => simp [pure_eq_ok]
    | none => cases strict <;> cases m.2.skip <;> simp [bind, Except.bind, pure, Except.pure, eq_comm]

/-- **Two members may change places.** -/
theorem placeMember_swap {fields : Fields σ τ} {slots first both : σ} {m n : Draft × Draft}
    (hm : fields.placeMember strict r slots m = .ok first) (hn : fields.placeMember strict r first n = .ok both) :
    ∃ second, fields.placeMember strict r slots n = .ok second ∧ fields.placeMember strict r second m = .ok both := by
  simp only [placeMember_eq_ok] at hm hn ⊢
  obtain ⟨k, hk, hm | ⟨hm, rfl, hskip, rfl⟩⟩ := hm
  · obtain ⟨l, hl, hn | ⟨hn, rfl, hskip, rfl⟩⟩ := hn
    · obtain ⟨second, hsecond, hboth⟩ := place_swap hm hn
      exact ⟨second, ⟨l, hl, .inl hsecond⟩, k, hk, .inl hboth⟩
    · exact ⟨slots, ⟨l, hl, .inr ⟨place_eq_none hn, rfl, hskip, rfl⟩⟩, k, hk, .inl hm⟩
  · obtain ⟨l, hl, hn⟩ := hn
    have hskipped : fields.place r k m.2 both = .ok none := place_eq_none hm
    rcases hn with hn | ⟨hn, -, hskip', rfl⟩
    · exact ⟨both, ⟨l, hl, .inl hn⟩, k, hk, .inr ⟨hskipped, rfl, hskip, rfl⟩⟩
    · exact ⟨both, ⟨l, hl, .inr ⟨hn, rfl, hskip', rfl⟩⟩, k, hk, .inr ⟨hm, rfl, hskip, rfl⟩⟩

/-- **A record is read alike whatever order its members are in.** -/
theorem read_object_perm {fields : Fields σ τ} {make : τ → Except Fault α} {ms ns : List (Draft × Draft)}
    {stop : Option Fault} {a : α} (hperm : ms.Perm ns) (h : fields.read strict make r (.object ms stop) = .ok a) :
    fields.read strict make r (.object ns stop) = .ok a := by
  simp only [read, bind_eq_ok, placeMembers_eq_foldlM] at h ⊢
  obtain ⟨inner, hinner, slots, hslots, h⟩ := h
  have hslots' := foldlM_perm (f := fields.placeMember strict inner) (fun _ _ _ _ _ => placeMember_swap) hperm hslots
  exact ⟨inner, hinner, slots, hslots', h⟩

end Fields

/-! ### What is read does not depend on where it stands -/

/-- The value of a written value does not depend on how much room there is, if it is enough. -/
theorem value_written_congr {v : Value} (hembeds : ¬v.Embeds) {r other : Reading} (hr : r.Allows v.depth)
    (hother : other.Allows v.depth) : v.written.value r = v.written.value other := by
  induction v using Value.induct generalizing r other with
  | null | bool | string => rfl
  | number n =>
    rw [Value.written]
    rcases numberDraft_cases n.write with ⟨_, _, hdraft⟩ | ⟨_, hdraft | hdraft⟩ <;> rw [hdraft] <;> rfl
  | array items ih =>
    obtain ⟨inner, hinside, -, hinner⟩ := hr.inside
    obtain ⟨inner', hinside', -, hinner'⟩ := hother.inside
    rw [Value.embeds_array, not_exists] at hembeds
    rw [Value.written, writtenItems_eq_map, value_array hinside, value_array hinside', List.mapM_map, List.mapM_map]
    exact congrArg _ (mapM_congr fun v hv => ih v hv (fun he => hembeds v ⟨hv, he⟩)
      (hinner.mono (depth_le_depthOfItems hv)) (hinner'.mono (depth_le_depthOfItems hv)))
  | object members ih =>
    obtain ⟨inner, hinside, -, hinner⟩ := hr.inside
    obtain ⟨inner', hinside', -, hinner'⟩ := hother.inside
    rw [Value.embeds_object, not_or, not_exists] at hembeds
    have hnames : ¬Reserved ((members.map fun m => (m.1, m.2.written)).map Prod.fst) := by rw [List.map_map]; exact hembeds.1
    rw [written_object, value_ofMembers hinside hnames, value_ofMembers hinside' hnames, List.mapM_map, List.mapM_map]
    exact congrArg _ (mapM_congr fun m hm => congrArg _ (ih m hm (fun he => hembeds.2 m ⟨hm, he⟩)
      (hinner.mono (depth_le_depthOfMembers hm)) (hinner'.mono (depth_le_depthOfMembers hm))))

theorem text_written_eq_ok {v : Value} {s : String} : v.written.text = .ok s ↔ v = .string s := by
  cases v with
  | string t => simp [Value.written, Draft.text, Draft.ofText]
  | number n =>
    rw [Value.written]
    rcases numberDraft_cases n.write with ⟨_, _, hdraft⟩ | ⟨_, hdraft | hdraft⟩ <;> rw [hdraft] <;> simp [Draft.text]
  | null | bool | array | object => simp [Value.written, Draft.text]

@[simp] theorem Draft.name_ofText (s : String) : (Draft.ofText s).name = .ok s := rfl

theorem text_draft_eq_ok {v : Value} {s : String} : v.draft.text = .ok s ↔ v = .string s := by
  cases v <;> simp [Value.draft, Draft.text, Draft.ofText]

/-- A written value is read as a text exactly if it is one. -/
theorem value_written_eq_string {v : Value} (hembeds : ¬v.Embeds) {r : Reading} (hr : r.Allows v.depth) {s : String} :
    v.written.value r = .ok (.string s) ↔ v = .string s := by
  cases v with
  | string t => simp [Value.written, Draft.value, Draft.ofText, Except.map]
  | number n =>
    rw [Value.written]
    rcases numberDraft_cases n.write with ⟨_, _, hdraft⟩ | ⟨_, hdraft | hdraft⟩ <;> rw [hdraft] <;>
      simp [Draft.value, Except.map]
  | null | bool => simp [Value.written, Draft.value]
  | array items =>
    obtain ⟨inner, hinside, -⟩ := hr.inside
    rw [Value.written, value_array hinside, map_eq_ok]
    simp
  | object members =>
    obtain ⟨inner, hinside, -⟩ := hr.inside
    rw [Value.embeds_object, not_or] at hembeds
    rw [written_object, value_ofMembers hinside (by rw [List.map_map]; exact hembeds.1), map_eq_ok]
    simp

/-! ### Tagged records -/

namespace Tagged

variable {κ α : Type} {tag : String} {kinds : List (String × κ)} {variant : κ → Reader α} {a : α}

/-- The members with the tag say the kind, once at most, and all others are read as values. -/
theorem ofMembers_eq_ok {r : Reading} {ms : List (String × Draft)} {kind known : Option κ} {others : List (String × Value)} :
    ofMembers tag kinds r kind (ms.map fun m => (.ofText m.1, m.2)) = .ok ⟨known, others⟩ ↔
      (∃ ks, (ms.filter (·.1 = tag)).mapM (fun m => m.2.text >>= Reader.known kinds) = .ok ks ∧
        kind.toList ++ ks = known.toList) ∧
      (ms.filter (·.1 ≠ tag)).mapM (fun m => (m.2.value r.plainly).map (m.1, ·)) = .ok others := by
  induction ms generalizing kind known others with
  | nil => cases kind <;> cases known <;> simp [ofMembers, pure, Except.pure, eq_comm]
  | cons m rest ih =>
    obtain ⟨name, d⟩ := m
    rw [List.map_cons, ofMembers]
    simp only [bind_eq_ok, Draft.name_ofText, Except.ok.injEq, exists_eq_left']
    by_cases hname : name = tag
    · rw [if_pos hname, List.filter_cons_of_pos (by simpa using hname), List.filter_cons_of_neg (by simpa using hname)]
      simp only [List.mapM_cons, bind_eq_ok, pure_eq_ok]
      cases kind with
      | some k =>
        -- the kind is known already, so the tag is there once too often
        refine iff_of_false (fun h => nomatch h) ?_
        rintro ⟨⟨_, ⟨k', -, ks, -, rfl⟩, hks⟩, -⟩
        have := congrArg List.length hks
        cases known <;> simp at this
      | none =>
        rw [if_neg (by simp)]
        simp only [bind_eq_ok, ih]
        constructor
        · rintro ⟨text, htext, k, hk, ⟨ks, hks, heq⟩, hothers⟩
          exact ⟨⟨k :: ks, ⟨k, ⟨text, htext, hk⟩, ks, hks, rfl⟩, heq⟩, hothers⟩
        · rintro ⟨⟨_, ⟨k, ⟨text, htext, hk⟩, ks, hks, rfl⟩, heq⟩, hothers⟩
          exact ⟨text, htext, k, hk, ⟨ks, hks, heq⟩, hothers⟩
    · rw [if_neg hname, List.filter_cons_of_neg (by simpa using hname), List.filter_cons_of_pos (by simpa using hname)]
      simp only [List.mapM_cons, bind_eq_ok, pure_eq_ok, map_eq_ok]
      constructor
      · rintro ⟨v, hv, ⟨known, others⟩, hrest, ⟨⟩⟩
        obtain ⟨hkind, hothers⟩ := ih.1 hrest
        exact ⟨hkind, _, ⟨v, hv, rfl⟩, others, hothers, rfl⟩
      · rintro ⟨hkind, _, ⟨v, hv, rfl⟩, others, hothers, rfl⟩
        exact ⟨v, hv, ⟨known, others⟩, ih.2 ⟨hkind, hothers⟩, rfl⟩

/-- **A tagged record is read exactly if one member is the tag,** and what it says is the kind of which the others are read. -/
theorem read_ofMembers_eq_ok {r inner : Reading} (h : r.inside = .ok inner) {ms : List (String × Draft)} :
    read tag kinds variant r (.ofMembers ms) = .ok a ↔ ∃ m text kind others, ms.filter (·.1 = tag) = [m] ∧
      m.2.text = .ok text ∧ Reader.known kinds text = .ok kind ∧
      (ms.filter (·.1 ≠ tag)).mapM (fun m => (m.2.value inner.plainly).map (m.1, ·)) = .ok others ∧
      variant kind .value (Value.object others).draft = .ok a := by
  rw [Draft.ofMembers, read]
  simp only [h, bind_eq_ok, Except.ok.injEq, exists_eq_left', proceed, true_and, exists_const]
  constructor
  · rintro ⟨⟨known, others⟩, hmembers, hread⟩
    obtain ⟨⟨ks, hks, heq⟩, hothers⟩ := ofMembers_eq_ok.1 hmembers
    cases known with
    | none => cases hread
    | some kind =>
      obtain rfl : ks = [kind] := by simpa using heq
      obtain ⟨m, hm, hkind⟩ : ∃ m, ms.filter (·.1 = tag) = [m] ∧ m.2.text >>= Reader.known kinds = .ok kind := by
        rw [mapM_eq_ok_iff] at hks
        generalize ms.filter (·.1 = tag) = l at hks
        obtain _ | ⟨hm, _ | _⟩ := hks
        exact ⟨_, rfl, hm⟩
      obtain ⟨text, htext, hkind⟩ := bind_eq_ok.1 hkind
      exact ⟨m, text, kind, others, hm, htext, hkind, hothers, hread⟩
  · rintro ⟨m, text, kind, others, hm, htext, hkind, hothers, hread⟩
    refine ⟨⟨some kind, others⟩, ofMembers_eq_ok.2 ⟨⟨[kind], ?_, rfl⟩, hothers⟩, hread⟩
    rw [hm, List.mapM_cons, htext]
    simp [bind, Except.bind, hkind, pure, Except.pure]

/-- What the values of members say together: one of them is the tag, and the others make up a record of the kind it says. -/
def Tells (tag : String) (kinds : List (String × κ)) (variant : κ → Reader α) (vs : List (String × Value)) (a : α) : Prop :=
  ∃ text kind, vs.filter (·.1 = tag) = [(tag, .string text)] ∧ Reader.known kinds text = .ok kind ∧
    variant kind .value (Value.object (vs.filter (·.1 ≠ tag))).draft = .ok a

/-- Whether records of each kind are read alike whatever order their members are in. -/
def Unordered (variant : κ → Reader α) : Prop :=
  ∀ (kind : κ) {ms ns : List (Draft × Draft)} {a : α}, ms.Perm ns → variant kind .value (.object ms none) = .ok a →
    variant kind .value (.object ns none) = .ok a

/-- **Members say the same in any order,** if records of each kind are read alike in any order. -/
theorem Tells.perm {vs ws : List (String × Value)} (h : Tells tag kinds variant vs a) (hvariant : Unordered variant)
    (hperm : vs.Perm ws) : Tells tag kinds variant ws a := by
  obtain ⟨text, kind, hm, hkind, hread⟩ := h
  have htag := hperm.filter (·.1 = tag)
  rw [hm, List.singleton_perm] at htag
  refine ⟨text, kind, htag.symm, hkind, ?_⟩
  rw [Value.draft, draftMembers_eq_map] at hread ⊢
  exact hvariant kind ((hperm.filter _).map _) hread

/-- **A tagged record is what the values of its members say.** -/
theorem read_iff_tells {r inner : Reading} (h : r.inside = .ok inner) {ms : List (String × Draft)}
    {vs : List (String × Value)} (hvalues : ms.mapM (fun m => (m.2.value inner.plainly).map (m.1, ·)) = .ok vs)
    (htext : ∀ m ∈ ms, ∀ s, m.2.text = .ok s ↔ m.2.value inner.plainly = .ok (.string s)) :
    read tag kinds variant r (.ofMembers ms) = .ok a ↔ Tells tag kinds variant vs a := by
  have hkept (p : String → Bool) : (ms.filter fun m => p m.1).mapM (fun m => (m.2.value inner.plainly).map (m.1, ·)) =
      .ok (vs.filter fun m => p m.1) := by
    refine mapM_filter_ok hvalues fun m v hv => ?_
    obtain ⟨_, -, rfl⟩ := map_eq_ok.1 hv
    rfl
  have hothers := hkept (· ≠ tag)
  have htag := mapM_eq_ok_iff.1 (hkept (· = tag))
  rw [read_ofMembers_eq_ok h, Tells]
  constructor
  · rintro ⟨m, text, kind, others, hm, hm', hkind, hothers', hread⟩
    obtain ⟨hmem, hname⟩ := List.mem_filter.1 (hm.symm ▸ List.mem_singleton_self m)
    rw [hothers, Except.ok.injEq] at hothers'
    rw [hm, List.forall₂_cons_left_iff] at htag
    obtain ⟨v, _, hv, hnil, hvs⟩ := htag
    rw [List.forall₂_nil_left_iff.1 hnil] at hvs
    rw [(htext m hmem text).1 hm', of_decide_eq_true hname] at hv
    exact ⟨text, kind, hvs.trans (congrArg (fun v => [v]) (Except.ok.inj hv).symm), hkind, hothers' ▸ hread⟩
  · rintro ⟨text, kind, hvs, hkind, hread⟩
    rw [hvs, List.forall₂_cons_right_iff] at htag
    obtain ⟨m, _, hv, hnil, hm⟩ := htag
    rw [List.forall₂_nil_right_iff.1 hnil] at hm
    obtain ⟨v, hv, heq⟩ := map_eq_ok.1 hv
    cases heq
    have hmem : m ∈ ms := (List.mem_filter.1 (hm.symm ▸ List.mem_singleton_self m)).1
    exact ⟨m, text, kind, _, hm, (htext m hmem text).2 hv, hkind, hothers, hread⟩

/-- **Out of a value a tagged record is what the members of the value say.** -/
theorem read_draft_iff_tells {vs : List (String × Value)} (h : ∀ m ∈ vs, m.2.Ordered) :
    read tag kinds variant .value (Value.object vs).draft = .ok a ↔ Tells tag kinds variant vs a := by
  have hvalue (m : String × Value) (hm : m ∈ vs) : m.2.draft.value Reading.value.plainly = .ok m.2 :=
    value_draft_of (h m hm) (.inl rfl) (Reading.allows_value m.2.depth)
  rw [draft_object]
  refine read_iff_tells Reading.inside_value ?_ (List.forall_mem_map.2 fun m hm s => ?_)
  · have hvalues : (vs.mapM fun m => (m.2.draft.value Reading.value.plainly).map (m.1, ·)) = .ok (vs.map id) :=
      mapM_ok fun m hm => by rw [hvalue m hm]; rfl
    rw [List.mapM_map]
    exact hvalues.trans (by rw [List.map_id])
  · rw [text_draft_eq_ok, hvalue m hm, Except.ok.injEq]

section Written

variable {members vs : List (String × Value)} {r other : Reading}

/-- The values of written members do not depend on how much room there is, if it is enough, nor on what may be embedded. -/
theorem value_member_congr (hembeds : ¬(Value.object members).Embeds) (hr : r.Allows (depthOfMembers members))
    (hother : other.Allows (depthOfMembers members)) {m : String × Value} (hm : m ∈ members) :
    m.2.written.value r = m.2.written.value other := by
  rw [Value.embeds_object, not_or, not_exists] at hembeds
  exact value_written_congr (fun he => hembeds.2 m ⟨hm, he⟩) (hr.mono (depth_le_depthOfMembers hm))
    (hother.mono (depth_le_depthOfMembers hm))

/-- **Out of a text a tagged record is what the values of the written members say.** -/
theorem read_written_iff_tells (hembeds : ¬(Value.object members).Embeds) (hr : r.Allows (Value.object members).depth)
    (hother : other.Allows (depthOfMembers members))
    (hvalues : members.mapM (fun m => (m.2.written.value other).map (m.1, ·)) = .ok vs) :
    read tag kinds variant r (Value.object members).written = .ok a ↔ Tells tag kinds variant vs a := by
  obtain ⟨inner, hinside, -, hinner⟩ := hr.inside
  have hplain : inner.plainly.Allows (depthOfMembers members) := hinner
  rw [written_object]
  refine read_iff_tells hinside ?_ (List.forall_mem_map.2 fun m hm s => ?_)
  · rw [List.mapM_map, ← hvalues]
    exact mapM_congr fun m hm => congrArg (Except.map _) (value_member_congr hembeds hplain hother hm)
  · rw [Value.embeds_object, not_or, not_exists] at hembeds
    rw [text_written_eq_ok, value_written_eq_string (fun he => hembeds.2 m ⟨hm, he⟩)
      (hplain.mono (depth_le_depthOfMembers hm))]

/-- If a tagged record is read out of a text, each of the members has a value. -/
theorem exists_values_of_read_written (hembeds : ¬(Value.object members).Embeds) (hr : r.Allows (Value.object members).depth)
    (hother : other.Allows (depthOfMembers members))
    (h : read tag kinds variant r (Value.object members).written = .ok a) :
    ∃ vs, members.mapM (fun m => (m.2.written.value other).map (m.1, ·)) = .ok vs := by
  obtain ⟨inner, hinside, -, hinner⟩ := hr.inside
  have hplain : inner.plainly.Allows (depthOfMembers members) := hinner
  rw [written_object, read_ofMembers_eq_ok hinside] at h
  obtain ⟨m, text, kind, others, hm, htext, -, hothers, -⟩ := h
  refine exists_mapM_ok fun n hn => ?_
  have hn' : (n.1, n.2.written) ∈ members.map fun m => (m.1, m.2.written) := List.mem_map_of_mem hn
  rw [← value_member_congr hembeds hplain hother hn]
  by_cases hname : n.1 = tag
  · -- the tag is a text, so it is its own value
    have hmem : (n.1, n.2.written) ∈ [m] := hm ▸ List.mem_filter.2 ⟨hn', by simpa using hname⟩
    obtain rfl := List.mem_singleton.1 hmem
    rw [text_written_eq_ok.1 htext]
    exact ⟨_, rfl⟩
  · exact exists_of_mapM_ok hothers (List.mem_filter.2 ⟨hn', by simpa using hname⟩)

/-- **A tagged record is read alike out of a text and out of the value of the text,** if no name is given to two members and
nothing is embedded in the text. -/
theorem read_written_iff (hnames : (members.map Prod.fst).Nodup) (hembeds : ¬(Value.object members).Embeds)
    (hr : r.Allows (Value.object members).depth) {documents room : Nat} (hroom : (Value.object members).depth ≤ room)
    (hvariant : Unordered variant) :
    read tag kinds variant r (Value.object members).written = .ok a ↔
      ∃ v, (Value.object members).written.value (.nested documents room) = .ok v ∧
        read tag kinds variant .value v.draft = .ok a := by
  have hnested : (Reading.nested documents room).Allows (Value.object members).depth := Reading.allows_nested hroom
  obtain ⟨inner, hinside, -, hinner⟩ := hnested.inside
  have hvalue : (Value.object members).written.value (.nested documents room) =
      Except.map (fun ms => .object (SortedMap.ofList ms).toList)
        (members.mapM fun m => (m.2.written.value inner).map (m.1, ·)) := by
    rw [written_object, value_ofMembers hinside, List.mapM_map]
    · rfl
    · rw [List.map_map]
      exact (not_or.1 (Value.embeds_object.not.1 hembeds)).1
  -- what the members say in their own order, they say in the order of the value
  have htells {vs : List (String × Value)} (hvs : members.mapM (fun m => (m.2.written.value inner).map (m.1, ·)) = .ok vs) :
      read tag kinds variant .value (Value.object (SortedMap.ofList vs).toList).draft = .ok a ↔
        read tag kinds variant r (Value.object members).written = .ok a := by
    have hnames' : (vs.map Prod.fst).Nodup := by
      rw [← names_eq_of_forall₂ (mapM_eq_ok_iff.1 hvs) fun m v hv => by obtain ⟨_, -, rfl⟩ := map_eq_ok.1 hv; rfl]
      exact hnames
    have hperm := SortedMap.perm_toList_ofList hnames'
    have hordered := ordered_of_value_nested (hvalue.trans (by rw [hvs]; rfl))
    rw [read_draft_iff_tells (Value.ordered_object.1 hordered).2, read_written_iff_tells hembeds hr hinner hvs]
    exact ⟨fun h => h.perm hvariant hperm, fun h => h.perm hvariant hperm.symm⟩
  rw [hvalue]
  constructor
  · intro h
    obtain ⟨vs, hvs⟩ := exists_values_of_read_written hembeds hr hinner h
    exact ⟨_, map_eq_ok.2 ⟨vs, hvs, rfl⟩, (htells hvs).2 h⟩
  · rintro ⟨v, hv, h⟩
    obtain ⟨vs, hvs, rfl⟩ := map_eq_ok.1 hv
    exact (htells hvs).1 h

end Written

end Tagged

end Json
end Suggest
