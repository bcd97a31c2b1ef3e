/-
# Bindings and look-ups of sorted maps

A sorted map is the list of its bindings, so a value is found under a key exactly if the binding is in the list
(`get?_eq_some_iff`), and inserting bindings that are in order one after the other gives back their list
(`toList_ofList`).
-/

import Mathlib.Data.List.Nodup
import Mathlib.Tactic.Tauto
import Suggest.SortedMap

namespace Suggest
namespace SortedMap

variable {κ α : Type} [LT κ] [DecidableLT κ] [DecidableEq κ] [Key κ]

/-- A key behind all others is bound at the end of the list. -/
theorem alterList_of_lt (k : κ) (f : Option α → α) {l : List (κ × α)} (h : ∀ b ∈ l, b.1 < k) :
    alterList k f l = l ++ [(k, f none)] := by
  induction l with
  | nil => rfl
  | cons b rest ih =>
    obtain ⟨k', a⟩ := b
    have hlt : k' < k := h (k', a) (by simp)
    have hnot : ¬k < k' := fun hgt => Key.irrefl k (Key.trans hgt hlt)
    have hne : k ≠ k' := by rintro rfl; exact Key.irrefl k hlt
    rw [alterList, if_neg hnot, if_neg hne, ih fun b hb => h b (by simp [hb]), List.cons_append]

/-- Bindings that go on where those of a map end are appended to them. -/
theorem toList_foldl_insert (l : List (κ × α)) (m : SortedMap κ α)
    (h : ((m.toList ++ l).map Prod.fst).Pairwise (· < ·)) :
    (l.foldl (fun m b => m.insert b.1 b.2) m).toList = m.toList ++ l := by
  induction l generalizing m with
  | nil => simp
  | cons b l ih =>
    have hb : (m.insert b.1 b.2).toList = m.toList ++ [b] := by
      rw [List.map_append, List.pairwise_append] at h
      refine alterList_of_lt b.1 _ fun c hc => ?_
      exact h.2.2 c.1 (List.mem_map_of_mem hc) b.1 (by simp)
    rw [List.foldl_cons, ih, hb, List.append_assoc, List.singleton_append]
    rw [hb, List.append_assoc, List.singleton_append]
    exact h

/-- **Bindings in order are the list of the map that they make up.** -/
theorem toList_ofList {l : List (κ × α)} (h : (l.map Prod.fst).Pairwise (· < ·)) : (ofList l).toList = l :=
  toList_foldl_insert l ∅ h

/-- The list of the map that bindings in any order make up. -/
theorem toList_ofList_eq_foldl (l : List (κ × α)) :
    (ofList l).toList = l.foldl (fun bs b => alterList b.1 (fun _ => b.2) bs) [] := by
  have hfold : ∀ m : SortedMap κ α, (l.foldl (fun m b => m.insert b.1 b.2) m).toList =
      l.foldl (fun bs b => alterList b.1 (fun _ => b.2) bs) m.toList := by
    induction l with
    | nil => exact fun _ => rfl
    | cons b rest ih => exact fun m => ih (m.insert b.1 b.2)
  exact hfold ∅

@[simp] theorem ofList_toList (m : SortedMap κ α) : ofList m.toList = m := ext_toList (toList_ofList m.ordered)

omit [Key κ] in
theorem mem_alterList {k : κ} {f : Option α → α} {l : List (κ × α)} {b : κ × α} (h : b ∈ alterList k f l) :
    b ∈ l ∨ b.1 = k ∧ ∃ a, b.2 = f a := by
  induction l with
  | nil => simp_all [alterList]
  | cons c rest ih =>
    obtain ⟨k', a⟩ := c
    rw [alterList] at h
    split at h
    · rcases List.mem_cons.1 h with rfl | h
      · exact .inr ⟨rfl, _, rfl⟩
      · exact .inl h
    split at h
    · next hk =>
      rcases List.mem_cons.1 h with rfl | h
      · exact .inr ⟨hk.symm, _, rfl⟩
      · exact .inl (by simp [h])
    · rcases List.mem_cons.1 h with rfl | h
      · exact .inl (by simp)
      · exact (ih h).imp_left fun h => by simp [h]

theorem mem_toList_foldl_insert {l : List (κ × α)} {m : SortedMap κ α} {b : κ × α}
    (h : b ∈ (l.foldl (fun m b => m.insert b.1 b.2) m).toList) : b ∈ m.toList ∨ b ∈ l := by
  induction l generalizing m with
  | nil => exact .inl h
  | cons c l ih =>
    rcases ih h with h | h
    · rcases mem_alterList h with h | ⟨hk, _, ha⟩
      · exact .inl h
      · exact .inr (by simp [Prod.ext hk ha])
    · exact .inr (by simp [h])

/-- Every binding of a map is one of those that make it up. -/
theorem mem_of_mem_toList_ofList {l : List (κ × α)} {b : κ × α} (h : b ∈ (ofList l).toList) : b ∈ l :=
  (mem_toList_foldl_insert h).resolve_left List.not_mem_nil

theorem mem_keys_foldl_insert {l : List (κ × α)} {m : SortedMap κ α} {k : κ} :
    k ∈ (l.foldl (fun m b => m.insert b.1 b.2) m).keys ↔ k ∈ m.keys ∨ k ∈ l.map Prod.fst := by
  induction l generalizing m with
  | nil => simp
  | cons c l ih =>
    rw [List.foldl_cons, ih, insert, mem_keys_alter, List.map_cons, List.mem_cons]
    tauto

/-- The keys of a map are those of the bindings that make it up. -/
theorem mem_keys_ofList {l : List (κ × α)} {k : κ} : k ∈ (ofList l).keys ↔ k ∈ l.map Prod.fst := by
  rw [ofList, mem_keys_foldl_insert]
  simp [keys, EmptyCollection.emptyCollection, empty]

omit [Key κ] in
theorem perm_alterList {k : κ} {f : Option α → α} {l : List (κ × α)} (h : k ∉ l.map Prod.fst) :
    (alterList k f l).Perm ((k, f none) :: l) := by
  induction l with
  | nil => exact .refl _
  | cons b rest ih =>
    obtain ⟨k', a⟩ := b
    rw [List.map_cons, List.mem_cons, not_or] at h
    rw [alterList, if_neg h.1]
    split
    · exact .refl _
    · exact ((ih h.2).cons _).trans (.swap ..)

theorem perm_toList_foldl_insert {l : List (κ × α)} {m : SortedMap κ α} (h : ((m.toList ++ l).map Prod.fst).Nodup) :
    (l.foldl (fun m b => m.insert b.1 b.2) m).toList.Perm (m.toList ++ l) := by
  induction l generalizing m with
  | nil => simp
  | cons b l ih =>
    have hnew : b.1 ∉ m.toList.map Prod.fst := fun hb => by
      rw [List.map_append, List.nodup_append] at h
      exact h.2.2 _ hb _ (by simp) rfl
    have hinsert : (m.insert b.1 b.2).toList.Perm (b :: m.toList) := perm_alterList hnew
    have hall : ((m.insert b.1 b.2).toList ++ l).Perm (m.toList ++ b :: l) :=
      (hinsert.append_right l).trans List.perm_middle.symm
    exact (ih ((hall.map Prod.fst).nodup_iff.2 h)).trans hall

/-- **Bindings of different keys are those of the map that they make up,** in another order. -/
theorem perm_toList_ofList {l : List (κ × α)} (h : (l.map Prod.fst).Nodup) : (ofList l).toList.Perm l :=
  perm_toList_foldl_insert (m := ∅) h

omit [DecidableLT κ] in
/-- **A value is found exactly where it is bound.** -/
theorem get?_eq_some_iff {m : SortedMap κ α} {k : κ} {a : α} : m.get? k = some a ↔ (k, a) ∈ m.toList := by
  have hordered := m.ordered
  unfold get?
  generalize m.toList = l at hordered ⊢
  induction l with
  | nil => simp
  | cons b rest ih =>
    obtain ⟨k', a'⟩ := b
    rw [List.map_cons, List.pairwise_cons] at hordered
    rw [lookup_cons_ite, List.mem_cons, Prod.mk.injEq]
    by_cases hk : k = k'
    · subst hk
      have hnot : (k, a) ∉ rest := fun hmem => Key.irrefl k (hordered.1 k (List.mem_map_of_mem (f := Prod.fst) hmem))
      simp [hnot, eq_comm]
    · simp [hk, ih hordered.2]

omit [DecidableLT κ] in
/-- Keys with one value are one key, if no value is bound twice. -/
theorem key_unique {m : SortedMap κ α} (h : m.values.Nodup) {k l : κ} {a : α} (hk : m.get? k = some a)
    (hl : m.get? l = some a) : k = l := by
  rw [get?_eq_some_iff] at hk hl
  exact congrArg Prod.fst (List.inj_on_of_nodup_map h hk hl rfl)

omit [DecidableLT κ] in
theorem get?_erase_of_ne {m : SortedMap κ α} {k x : κ} (h : x ≠ k) : (m.erase k).get? x = m.get? x := by
  refine Option.ext fun a => ?_
  rw [get?_eq_some_iff, get?_eq_some_iff, erase, List.mem_filter]
  simp [h]

omit [DecidableLT κ] in
theorem get?_of_get?_erase {m : SortedMap κ α} {k x : κ} {a : α} (h : (m.erase k).get? x = some a) :
    m.get? x = some a := by
  rw [get?_eq_some_iff] at h ⊢
  exact (List.mem_filter.1 h).1

end SortedMap
end Suggest
