/-
# The stable order

Sorting leaves items of which none has to stand before another in the order that they are given in (`filter_stableSort`).
There is only one such list in order (`OrdersOn.stableSort_congr`), so the insertions of `stableSort` come to the same as the
merge sort of the library (`stableSort_eq_mergeSort`), and a list may be rearranged before it is sorted as long as no two level
items pass each other.
-/

import Mathlib.Data.List.Pairwise
import Suggest.Proofs.Sorting

namespace Suggest

variable {α : Type} {before : α → α → Bool}

/-- Sorting does not depend on more of the items than their order does. -/
theorem map_stableSort {β : Type} {before' : β → β → Bool} (f : α → β) (h : ∀ a b, before a b = before' (f a) (f b))
    (xs : List α) : (stableSort before xs).map f = stableSort before' (xs.map f) := by
  have hinsert : ∀ (x : α) (ys : List α), (insertBackwards before x ys).map f = insertBackwards before' (f x) (ys.map f) := by
    intro x ys
    induction ys with
    | nil => rfl
    | cons y rest ih =>
      rw [insertBackwards, List.map_cons, insertBackwards, ← h]
      split
      · rw [List.map_cons, ih]
      · rfl
  have hinsertAll : ∀ zs ys : List α, (zs.foldl (fun sorted x => insertBackwards before x sorted) ys).map f =
      (zs.map f).foldl (fun sorted x => insertBackwards before' x sorted) (ys.map f) := by
    intro zs
    induction zs with
    | nil => exact fun _ => rfl
    | cons z rest ih => exact fun ys => by rw [List.foldl_cons, ih, hinsert, List.map_cons, List.foldl_cons]
  rw [stableSort, insertAll, List.map_reverse, hinsertAll]
  rfl

/-- Items of which none has to stand before another keep their order when one of them is inserted. -/
theorem filter_insertBackwards {p : α → Bool} {x : α} {ys : List α}
    (h : ∀ y ∈ ys, p x = true → p y = true → before x y = false) :
    (insertBackwards before x ys).filter p = (x :: ys).filter p := by
  induction ys with
  | nil => rfl
  | cons y rest ih =>
    rw [insertBackwards]
    split
    · next hxy =>
      rw [List.filter_cons, ih fun z hz => h z (by simp [hz]), List.filter_cons, List.filter_cons, List.filter_cons]
      cases hx : p x with
      | false => rfl
      | true =>
        -- `x` moves past `y` only if one of them is left out
        have hy : p y = false := by
          rw [← Bool.not_eq_true]
          intro hy
          rw [h y (by simp) hx hy] at hxy
          cases hxy
        simp [hy]
    · rfl

/-- **Sorting is stable:** items of which none has to stand before another keep their order. -/
theorem filter_stableSort {p : α → Bool} {xs : List α}
    (h : ∀ x ∈ xs, ∀ y ∈ xs, p x = true → p y = true → before x y = false) :
    (stableSort before xs).filter p = xs.filter p := by
  have hinsert : ∀ zs ys : List α, (∀ y ∈ ys ++ zs, y ∈ xs) →
      (zs.foldl (fun sorted x => insertBackwards before x sorted) ys).filter p = (zs.reverse ++ ys).filter p := by
    intro zs
    induction zs with
    | nil => exact fun ys _ => rfl
    | cons z rest ih =>
      intro ys hmem
      have hz : z ∈ xs := hmem z (by simp)
      have hnext : ∀ y ∈ insertBackwards before z ys ++ rest, y ∈ xs := fun y hy => by
        rw [List.mem_append, (perm_insertBackwards before z ys).mem_iff] at hy
        exact hmem y (by simpa [or_assoc, or_left_comm] using hy)
      rw [List.foldl_cons, ih _ hnext, List.filter_append,
        filter_insertBackwards fun y hy => h z hz y (hmem y (by simp [hy])), ← List.filter_append]
      simp
  rw [stableSort, insertAll, List.filter_reverse, List.reverse_nil, hinsert xs [] (by simp), List.append_nil,
    List.filter_reverse, List.reverse_reverse]

/-- Lists in order that have the same items, and those that are level in the same order, are one list. -/
theorem eq_of_filter_eq {le : α → α → Bool} {ys zs : List α} (hperm : ys.Perm zs)
    (hrefl : ∀ y ∈ ys, le y y = true) (hys : ys.Pairwise fun a b => le a b = true)
    (hzs : zs.Pairwise fun a b => le a b = true)
    (hlevel : ∀ x ∈ ys, ys.filter (fun y => le x y && le y x) = zs.filter fun y => le x y && le y x) : ys = zs := by
  induction ys generalizing zs with
  | nil => exact hperm.nil_eq
  | cons y ys ih =>
    cases zs with
    | nil => exact absurd hperm.symm.nil_eq (List.cons_ne_nil y ys).symm
    | cons z zs =>
      rw [List.pairwise_cons] at hys hzs
      have hyz : le y z = true := by
        rcases List.mem_cons.1 (hperm.mem_iff.2 List.mem_cons_self) with rfl | hz
        · exact hrefl z List.mem_cons_self
        · exact hys.1 z hz
      have hzy : le z y = true := by
        rcases List.mem_cons.1 (hperm.mem_iff.1 List.mem_cons_self) with rfl | hy
        · exact hrefl y List.mem_cons_self
        · exact hzs.1 y hy
      -- both lists start with an item that is level with `y`, so with the first of these
      have hhead := hlevel y List.mem_cons_self
      rw [List.filter_cons_of_pos (by simp [hrefl y]), List.filter_cons_of_pos (by simp [hyz, hzy])] at hhead
      obtain rfl : y = z := (List.cons.inj hhead).1
      rw [ih hperm.cons_inv (fun x hx => hrefl x (by simp [hx])) hys.2 hzs.2 fun x hx => ?_]
      have hx := hlevel x (by simp [hx])
      rw [List.filter_cons, List.filter_cons] at hx
      split at hx
      · exact (List.cons.inj hx).2
      · exact hx

/-- What makes a relation an order on the items of which `S` holds: two items do not have to stand before one another, and of
two items that have to stand one before the other each third one has to stand before the later or behind the earlier. -/
structure OrdersOn (before : α → α → Bool) (S : α → Prop) : Prop where
  asymm : ∀ {a b}, before a b = true → before b a = false
  split : ∀ {x y z}, S x → S y → S z → before x z = true → before x y = true ∨ before y z = true

namespace OrdersOn

theorem irrefl (h : OrdersOn before S) (x : α) : before x x = false := by
  rw [← Bool.not_eq_true]
  intro hx
  rw [h.asymm hx] at hx
  cases hx

theorem trans (h : OrdersOn before S) {x y z : α} (hx : S x) (hy : S y) (hz : S z) (hxy : before x y = true)
    (hyz : before y z = true) : before x z = true := by
  refine (h.split hx hz hy hxy).resolve_right fun hzy => ?_
  rw [h.asymm hyz] at hzy
  cases hzy

/-- What need not stand behind an item need not stand behind what has to stand behind that one either. -/
theorem trans_level (h : OrdersOn before S) {x y z : α} (hx : S x) (hy : S y) (hz : S z) (hyx : before y x = false)
    (hzy : before z y = false) : before z x = false := by
  rw [← Bool.not_eq_true]
  intro hzx
  rcases h.split hz hy hx hzx with hzy' | hyx'
  · rw [hzy] at hzy'
    cases hzy'
  · rw [hyx] at hyx'
    cases hyx'

/-- An item that has to stand before another has to stand before what need not stand before that one. -/
theorem before_of_level (h : OrdersOn before S) {x y z : α} (hx : S x) (hy : S y) (hz : S z) (hxy : before x y = true)
    (hzy : before z y = false) : before x z = true :=
  (h.split hx hz hy hxy).resolve_right (by rw [hzy]; exact Bool.false_ne_true)

/-- Read from behind, an order is an order. -/
theorem flip (h : OrdersOn before S) : OrdersOn (fun a b => before b a) S :=
  ⟨fun hab => h.asymm hab, fun hx hy hz hzx => (h.split hz hy hx hzx).symm⟩

theorem pairwise_stableSort (h : OrdersOn before S) {xs : List α} (hxs : ∀ x ∈ xs, S x) :
    (stableSort before xs).Pairwise fun a b => before b a = false :=
  Suggest.pairwise_stableSort h.asymm fun _ hx _ hy _ hz => h.split (hxs _ hx) (hxs _ hy) (hxs _ hz)

/-- **There is one stable order:** a list and a rearrangement of it that keeps the order of level items are sorted alike. -/
theorem stableSort_congr (h : OrdersOn before S) {xs ys : List α} (hxs : ∀ x ∈ xs, S x) (hperm : ys.Perm xs)
    (hlevel : ∀ p : α → Bool, (∀ x ∈ xs, ∀ y ∈ xs, p x = true → p y = true → before x y = false) →
      ys.filter p = xs.filter p) : stableSort before ys = stableSort before xs := by
  have hys : ∀ y ∈ ys, S y := fun y hy => hxs y (hperm.mem_iff.1 hy)
  have hmem : ∀ {x}, x ∈ stableSort before ys → x ∈ xs := fun hx => hperm.mem_iff.1 ((perm_stableSort before ys).mem_iff.1 hx)
  refine @eq_of_filter_eq α (fun x y => !before y x) _ _
    ((perm_stableSort before ys).trans (hperm.trans (perm_stableSort before xs).symm)) (fun y _ => by rw [h.irrefl]; rfl)
    ((h.pairwise_stableSort hys).imp fun hab => by rw [hab]; rfl)
    ((h.pairwise_stableSort hxs).imp fun hab => by rw [hab]; rfl) fun x hx => ?_
  -- what is level with `x` is level with one another
  have hlevel' : ∀ y ∈ xs, ∀ z ∈ xs, ((!before y x) && !before x y) = true → ((!before z x) && !before x z) = true →
      before y z = false := by
    intro y hy z hz hyx hzx
    simp only [Bool.and_eq_true, Bool.not_eq_true'] at hyx hzx
    exact h.trans_level (hxs z hz) (hxs x (hmem hx)) (hxs y hy) hzx.2 hyx.1
  rw [filter_stableSort fun y hy z hz => hlevel' y (hperm.mem_iff.1 hy) z (hperm.mem_iff.1 hz), filter_stableSort hlevel',
    hlevel _ hlevel']

/-- Neighbours change places if all of the later part has to stand before all of the earlier one. -/
theorem stableSort_exchange (h : OrdersOn before S) (xs ys zs : List α) (hS : ∀ x ∈ xs ++ (ys ++ zs), S x)
    (hpass : ∀ x ∈ xs, ∀ y ∈ ys, before y x = true) :
    stableSort before (ys ++ (xs ++ zs)) = stableSort before (xs ++ (ys ++ zs)) := by
  refine h.stableSort_congr hS (List.perm_append_comm_assoc ys xs zs) fun p hp => ?_
  -- level items are not in both parts
  have hnone : xs.filter p = [] ∨ ys.filter p = [] := by
    by_contra hboth
    rw [not_or] at hboth
    obtain ⟨x, hx⟩ := List.exists_mem_of_ne_nil _ hboth.1
    obtain ⟨y, hy⟩ := List.exists_mem_of_ne_nil _ hboth.2
    rw [List.mem_filter] at hx hy
    have hlevel := hp y (by simp [hy.1]) x (by simp [hx.1]) hy.2 hx.2
    rw [hpass x hx.1 y hy.1] at hlevel
    cases hlevel
  rcases hnone with hnone | hnone <;> simp [List.filter_append, hnone]

/-- A part of a list may be sorted in advance. -/
theorem stableSort_append_stableSort (h : OrdersOn before S) {xs ys : List α} (hS : ∀ x ∈ xs ++ ys, S x) :
    stableSort before (stableSort before xs ++ stableSort before ys) = stableSort before (xs ++ ys) := by
  refine h.stableSort_congr hS ((perm_stableSort before xs).append (perm_stableSort before ys)) fun p hp => ?_
  rw [List.filter_append, List.filter_append,
    filter_stableSort fun x hx y hy => hp x (List.mem_append_left ys hx) y (List.mem_append_left ys hy),
    filter_stableSort fun x hx y hy => hp x (List.mem_append_right xs hx) y (List.mem_append_right xs hy)]

/-- Parts that are sorted alike may stand for one another. -/
theorem stableSort_append_congr (h : OrdersOn before S) {xs xs' ys ys' : List α} (hS : ∀ x ∈ xs ++ ys, S x)
    (hxs : stableSort before xs' = stableSort before xs) (hys : stableSort before ys' = stableSort before ys) :
    stableSort before (xs' ++ ys') = stableSort before (xs ++ ys) := by
  have hpermx : xs'.Perm xs := (perm_stableSort before xs').symm.trans (hxs ▸ perm_stableSort before xs)
  have hpermy : ys'.Perm ys := (perm_stableSort before ys').symm.trans (hys ▸ perm_stableSort before ys)
  rw [← h.stableSort_append_stableSort hS, ← hxs, ← hys, h.stableSort_append_stableSort]
  exact fun x hx => hS x ((hpermx.append hpermy).mem_iff.1 hx)

/-- Read from behind, a list is sorted the other way round. -/
theorem stableSort_reverse (h : OrdersOn before S) {xs : List α} (hS : ∀ x ∈ xs, S x) :
    stableSort (fun a b => before b a) xs.reverse = (stableSort before xs).reverse := by
  have hsorted : stableSort (fun a b => before b a) (stableSort before xs).reverse = (stableSort before xs).reverse :=
    stableSort_of_pairwise (List.pairwise_reverse.2 (h.pairwise_stableSort hS))
  rw [← hsorted]
  refine (h.flip.stableSort_congr (fun x hx => hS x (List.mem_reverse.1 hx)) ?_ fun p hp => ?_).symm
  · exact (List.reverse_perm _).trans ((perm_stableSort before xs).trans (List.reverse_perm xs).symm)
  · rw [List.filter_reverse, List.filter_reverse, filter_stableSort fun x hx y hy hpx hpy => ?_]
    exact hp y (List.mem_reverse.2 hy) x (List.mem_reverse.2 hx) hpy hpx

end OrdersOn

/-- The merge sort of the library puts a list in order and keeps the order of items that are level, if its relation is an
order on the items of the list. -/
theorem pairwise_mergeSort_of_mem {le : α → α → Bool} {xs : List α}
    (htrans : ∀ x ∈ xs, ∀ y ∈ xs, ∀ z ∈ xs, le x y = true → le y z = true → le x z = true)
    (htotal : ∀ x ∈ xs, ∀ y ∈ xs, (le x y || le y x) = true) :
    (xs.mergeSort le).Pairwise (fun a b => le a b = true) ∧
      ∀ p : α → Bool, (∀ x ∈ xs, ∀ y ∈ xs, p x = true → p y = true → le x y = true) →
        (xs.mergeSort le).filter p = xs.filter p := by
  let le' : {x // x ∈ xs} → {x // x ∈ xs} → Bool := fun x y => le x.1 y.1
  have hmap : (xs.attach.mergeSort le').map Subtype.val = xs.mergeSort le := by
    rw [List.map_mergeSort (s := le) fun _ _ _ _ => rfl, List.attach_map_subtype_val]
  have htrans' : ∀ x y z : {x // x ∈ xs}, le' x y = true → le' y z = true → le' x z = true :=
    fun x y z => htrans x.1 x.2 y.1 y.2 z.1 z.2
  have htotal' : ∀ x y : {x // x ∈ xs}, (le' x y || le' y x) = true := fun x y => htotal x.1 x.2 y.1 y.2
  refine ⟨?_, fun p hp => ?_⟩
  · rw [← hmap, List.pairwise_map]
    exact List.pairwise_mergeSort htrans' htotal' _
  · have hlevel : (xs.attach.filter fun x => p x.1).Pairwise fun a b => le' a b = true := by
      refine List.pairwise_of_forall_mem_list fun a ha b hb => ?_
      exact hp a.1 a.2 b.1 b.2 (List.mem_filter.1 ha).2 (List.mem_filter.1 hb).2
    have hsub := (List.sublist_mergeSort htrans' htotal' hlevel List.filter_sublist).filter fun x => p x.1
    rw [List.filter_filter] at hsub
    simp only [Bool.and_self] at hsub
    have hlength := ((List.mergeSort_perm xs.attach le').filter fun x => p x.1).length_eq
    have heq := congrArg (List.map Subtype.val) (hsub.eq_of_length hlength.symm)
    have hall := List.filter_map (p := p) (f := Subtype.val) (l := xs.attach)
    rw [List.attach_map_subtype_val] at hall
    rw [← hmap, List.filter_map, hall]
    exact heq.symm

/-- **Sorting is the stable merge sort of the library,** if of any two items that have to stand one before the other each
third one has to stand before the later or behind the earlier. -/
theorem stableSort_eq_mergeSort (hasymm : ∀ {a b}, before a b = true → before b a = false) {xs : List α}
    (hsplit : ∀ x ∈ xs, ∀ y ∈ xs, ∀ z ∈ xs, before x z = true → before x y = true ∨ before y z = true) :
    stableSort before xs = xs.mergeSort fun x y => !before y x := by
  have h : OrdersOn before (· ∈ xs) := ⟨hasymm, fun hx hy hz => hsplit _ hx _ hy _ hz⟩
  have htrans : ∀ x ∈ xs, ∀ y ∈ xs, ∀ z ∈ xs, (!before y x) = true → (!before z y) = true → (!before z x) = true := by
    intro x hx y hy z hz hyx hzy
    rw [Bool.not_eq_true'] at hyx hzy ⊢
    exact h.trans_level hx hy hz hyx hzy
  have htotal : ∀ x ∈ xs, ∀ y ∈ xs, ((!before y x) || !before x y) = true := by
    intro x _ y _
    cases hyx : before y x with
    | false => rfl
    | true => rw [hasymm hyx]; rfl
  obtain ⟨hordered, hfilter⟩ := pairwise_mergeSort_of_mem htrans htotal
  have hsorted : stableSort before (xs.mergeSort fun x y => !before y x) = xs.mergeSort fun x y => !before y x :=
    stableSort_of_pairwise (hordered.imp fun hab => by rwa [Bool.not_eq_true'] at hab)
  rw [← hsorted]
  refine (h.stableSort_congr (fun _ hx => hx) (List.mergeSort_perm xs _) fun p hp => ?_).symm
  exact hfilter p fun x hx y hy hpx hpy => by rw [hp y hy x hx hpy hpx]; rfl

end Suggest
