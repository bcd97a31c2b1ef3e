/-
# Merging

Two sorted lists become one. Items of which neither has to stand before the other keep their order, and those of the first
list come first.

A relation that is no order need not give the same list from both ends. `merge` works from one end alone, so it always has
a result. `mergeEnds?` works from both ends at once, and if the ends have drawn one item twice, the relation contradicts
itself and there is no result. All results have the items of the two lists (`perm_merge`, `perm_mergeEnds?`).
-/

import Suggest.StableSort

namespace Suggest
namespace RunSort

variable {α : Type}

/-- The first `n` items of a merge, and how many of them are from the first list. Of the two items in front, the first
list's is drawn if it may stand before the other. -/
def draw (mayPrecede : α → α → Bool) : Nat → List α → List α → List α × Nat
  | 0, _, _ => ([], 0)
  | n + 1, [], ys => (ys.take (n + 1), 0)
  | n + 1, xs, [] => (xs.take (n + 1), (xs.take (n + 1)).length)
  | n + 1, x :: xs, y :: ys =>
    if mayPrecede x y then
      let (drawn, i) := draw mayPrecede n xs (y :: ys)
      (x :: drawn, i + 1)
    else
      let (drawn, i) := draw mayPrecede n (x :: xs) ys
      (y :: drawn, i)

/-- Draw from the front of two lists, the later one of which gives way. -/
def drawFront (before : α → α → Bool) (n : Nat) (xs ys : List α) : List α × Nat :=
  draw (fun x y => !before y x) n xs ys

/-- Draw from the back of two lists, last item first, and count what is from the later one, which goes first. -/
def drawBack (before : α → α → Bool) (n : Nat) (xs ys : List α) : List α × Nat :=
  draw (fun y x => !before y x) n ys.reverse xs.reverse

/-- Merge two sorted lists: from the front, or from the back if the later one is the shorter. -/
def merge (before : α → α → Bool) (xs ys : List α) : List α :=
  if xs.length ≤ ys.length then (drawFront before (xs.length + ys.length) xs ys).1
  else (drawBack before (xs.length + ys.length) xs ys).1.reverse

/-- Merge two sorted lists from both ends, where the first one is not the longer and each end draws as many items as it
has. What is left is between them, one item at most if the lengths differ by no more. -/
def mergeEnds? (before : α → α → Bool) (xs ys : List α) : Option (List α) :=
  let n := xs.length
  let (front, i) := drawFront before n xs ys
  let (back, j) := drawBack before n xs ys
  if i ≤ j ∧ n - i ≤ ys.length - j then
    some (front ++ ((xs.take j).drop i ++ (ys.take (ys.length - j)).drop (n - i)) ++ back.reverse)
  else none

theorem draw_count_le (mayPrecede : α → α → Bool) (n : Nat) (xs ys : List α) :
    (draw mayPrecede n xs ys).2 ≤ n ∧ (draw mayPrecede n xs ys).2 ≤ xs.length := by
  fun_induction draw mayPrecede n xs ys with
  | case1 => simp
  | case2 => simp
  | case3 n xs h => rw [List.length_take]; omega
  | case4 n x xs y ys h drawn i hd ih => rw [hd] at ih; simp only [List.length_cons]; omega
  | case5 n x xs y ys h drawn i hd ih => rw [hd] at ih; simp only [List.length_cons] at ih ⊢; omega

/-- What is drawn is what stood in front in both lists. -/
theorem perm_draw (mayPrecede : α → α → Bool) (n : Nat) (xs ys : List α) :
    (draw mayPrecede n xs ys).1.Perm
      (xs.take (draw mayPrecede n xs ys).2 ++ ys.take (n - (draw mayPrecede n xs ys).2)) := by
  fun_induction draw mayPrecede n xs ys with
  | case1 => simp
  | case2 => simp
  | case3 n xs h => rw [List.length_take, ← List.take_eq_take_min, List.take_nil, List.append_nil]
  | case4 n x xs y ys h drawn i hd ih =>
    rw [hd] at ih
    simpa using ih.cons x
  | case5 n x xs y ys h drawn i hd ih =>
    have hi := (draw_count_le mayPrecede n (x :: xs) ys).1
    rw [hd] at ih hi
    have hn : n + 1 - i = n - i + 1 := Nat.sub_add_comm hi
    rw [hn, List.take_succ_cons]
    exact (ih.cons y).trans List.perm_middle.symm

theorem perm_drawFront (before : α → α → Bool) (n : Nat) (xs ys : List α) :
    (drawFront before n xs ys).1.Perm
      (xs.take (drawFront before n xs ys).2 ++ ys.take (n - (drawFront before n xs ys).2)) :=
  perm_draw _ n xs ys

theorem perm_drawBack (before : α → α → Bool) (n : Nat) (xs ys : List α) :
    (drawBack before n xs ys).1.Perm
      (ys.drop (ys.length - (drawBack before n xs ys).2) ++
        xs.drop (xs.length - (n - (drawBack before n xs ys).2))) := by
  refine (perm_draw _ n ys.reverse xs.reverse).trans ?_
  rw [List.take_reverse, List.take_reverse]
  exact (List.reverse_perm _).append (List.reverse_perm _)

/-- The second list gives no more than it has. -/
theorem le_draw_count_add (mayPrecede : α → α → Bool) (n : Nat) (xs ys : List α) (h : n ≤ xs.length + ys.length) :
    n ≤ (draw mayPrecede n xs ys).2 + ys.length := by
  fun_induction draw mayPrecede n xs ys with
  | case1 => exact Nat.zero_le _
  | case2 n ys => simpa using h
  | case3 n xs _ => rw [List.length_nil] at h ⊢; rw [List.length_take]; omega
  | case4 n x xs y ys _ drawn i hd ih => rw [hd] at ih; simp only [List.length_cons] at h ih ⊢; omega
  | case5 n x xs y ys _ drawn i hd ih => rw [hd] at ih; simp only [List.length_cons] at h ih ⊢; omega

/-- Drawing as many items as there are draws all of them. -/
theorem perm_draw_all (mayPrecede : α → α → Bool) (xs ys : List α) :
    (draw mayPrecede (xs.length + ys.length) xs ys).1.Perm (xs ++ ys) := by
  have h := perm_draw mayPrecede (xs.length + ys.length) xs ys
  have hi := (draw_count_le mayPrecede (xs.length + ys.length) xs ys).2
  have hj := le_draw_count_add mayPrecede (xs.length + ys.length) xs ys (Nat.le_refl _)
  rwa [List.take_of_length_le (by omega), List.take_of_length_le (by omega)] at h

/-- A merge keeps every item. -/
theorem perm_merge (before : α → α → Bool) (xs ys : List α) : (merge before xs ys).Perm (xs ++ ys) := by
  rw [merge]
  split
  · exact perm_draw_all _ xs ys
  · have h := perm_draw_all (fun y x => !before y x) ys.reverse xs.reverse
    rw [List.length_reverse, List.length_reverse, Nat.add_comm] at h
    exact (List.reverse_perm _).trans (h.trans
      (((List.reverse_perm ys).append (List.reverse_perm xs)).trans List.perm_append_comm))

/-- A list in three parts. -/
theorem take_append_middle_append_drop (xs : List α) {i j : Nat} (h : i ≤ j) :
    xs.take i ++ ((xs.take j).drop i ++ xs.drop j) = xs := by
  have hi : (xs.take j).take i = xs.take i := by rw [List.take_take, Nat.min_eq_left h]
  rw [← List.append_assoc, ← hi, List.take_append_drop, List.take_append_drop]

/-- A merge from both ends keeps every item. -/
theorem perm_mergeEnds? {before : α → α → Bool} {xs ys zs : List α} (h : mergeEnds? before xs ys = some zs) :
    zs.Perm (xs ++ ys) := by
  have hfront := perm_drawFront before xs.length xs ys
  have hback := perm_drawBack before xs.length xs ys
  have hi := (draw_count_le (fun y x => !before y x) xs.length ys.reverse xs.reverse).1
  simp only [mergeEnds?] at h
  change (drawBack before xs.length xs ys).2 ≤ xs.length at hi
  generalize drawFront before xs.length xs ys = front at h hfront
  generalize drawBack before xs.length xs ys = back at h hback hi
  obtain ⟨front, i⟩ := front
  obtain ⟨back, j⟩ := back
  simp only at h hfront hback hi
  split at h
  · next hij =>
    cases h
    rw [Nat.sub_sub_self hi] at hback
    classical
    rw [List.perm_iff_count] at hfront hback ⊢
    intro a
    have hxs := congrArg (List.count a) (take_append_middle_append_drop xs hij.1)
    have hys := congrArg (List.count a) (take_append_middle_append_drop ys hij.2)
    have hf := hfront a
    have hb := hback a
    simp only [List.count_append, List.count_reverse] at hxs hys hf hb ⊢
    omega
  · cases h

end RunSort
end Suggest
