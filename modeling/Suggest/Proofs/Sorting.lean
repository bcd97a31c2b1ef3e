/-
# The order that sorting brings about

Stable sorting puts no item behind one that it has to stand before, if of any two items that have to stand one before the
other each third one has to stand before the later or behind the earlier (`pairwise_stableSort`).  Later items that do not have
to stand before the earlier ones stay behind them (`stableSort_append`), and what is in order stays as it is
(`stableSort_of_pairwise`).
-/

import Suggest.StableSort

namespace Suggest

variable {α : Type} {before : α → α → Bool}

/-- An item that is inserted into a list that is written backwards comes to stand where it has to. -/
theorem pairwise_insertBackwards (hasymm : ∀ {a b}, before a b = true → before b a = false) {x : α} {ys : List α}
    (hsplit : ∀ y ∈ ys, ∀ z ∈ ys, before x z = true → before x y = true ∨ before y z = true)
    (h : ys.Pairwise fun a b => before a b = false) :
    (insertBackwards before x ys).Pairwise fun a b => before a b = false := by
  induction ys with
  | nil => exact List.pairwise_singleton _ x
  | cons y rest ih =>
    obtain ⟨hy, hrest⟩ := List.pairwise_cons.1 h
    rw [insertBackwards]
    split
    · next hxy =>
      refine List.pairwise_cons.2 ⟨fun z hz => ?_, ih (fun w hw v hv => hsplit w (by simp [hw]) v (by simp [hv])) hrest⟩
      rcases List.mem_cons.1 ((perm_insertBackwards before x rest).mem_iff.1 hz) with rfl | hz
      · exact hasymm hxy
      · exact hy z hz
    · next hxy =>
      rw [Bool.not_eq_true] at hxy
      refine List.pairwise_cons.2 ⟨fun z hz => ?_, h⟩
      rcases List.mem_cons.1 hz with rfl | hz
      · exact hxy
      · -- an item further ahead that `x` has to stand before would separate `x` and `y`
        rw [← Bool.not_eq_true]
        intro hxz
        rcases hsplit y List.mem_cons_self z (by simp [hz]) hxz with hxy' | hyz
        · rw [hxy] at hxy'
          cases hxy'
        · rw [hy z hz] at hyz
          cases hyz

/-- **Sorted items stand in order.** -/
theorem pairwise_stableSort (hasymm : ∀ {a b}, before a b = true → before b a = false) {xs : List α}
    (hsplit : ∀ x ∈ xs, ∀ y ∈ xs, ∀ z ∈ xs, before x z = true → before x y = true ∨ before y z = true) :
    (stableSort before xs).Pairwise fun a b => before b a = false := by
  have hinsert : ∀ ws ys : List α, (∀ y ∈ ys ++ ws, y ∈ xs) →
      (ys.Pairwise fun a b => before a b = false) →
      (ws.foldl (fun sorted x => insertBackwards before x sorted) ys).Pairwise fun a b => before a b = false := by
    intro ws
    induction ws with
    | nil => exact fun ys _ h => h
    | cons x rest ih =>
      intro ys hmem h
      have hys : ∀ y ∈ ys, y ∈ xs := fun y hy => hmem y (by simp [hy])
      refine ih _ (fun y hy => hmem y ?_)
        (pairwise_insertBackwards hasymm (fun y hy z hz => hsplit x (hmem x (by simp)) y (hys y hy) z (hys z hz)) h)
      rw [List.mem_append, (perm_insertBackwards before x ys).mem_iff] at hy
      simpa [or_assoc, or_left_comm] using hy
  rw [stableSort, insertAll, List.pairwise_reverse]
  exact hinsert xs [] (by simp) List.Pairwise.nil

/-- What is in order stays as it is. -/
theorem stableSort_of_pairwise {xs : List α} (h : xs.Pairwise fun a b => before b a = false) :
    stableSort before xs = xs := by
  have hinsert : ∀ ys zs : List α, ((zs.reverse ++ ys).Pairwise fun a b => before b a = false) →
      ys.foldl (fun sorted x => insertBackwards before x sorted) zs = ys.reverse ++ zs := by
    intro ys
    induction ys with
    | nil => exact fun _ _ => rfl
    | cons y rest ih =>
      intro zs hzs
      have hy : insertBackwards before y zs = y :: zs := by
        cases zs with
        | nil => rfl
        | cons z more =>
          have hzy : before y z = false := (List.pairwise_append.1 hzs).2.2 z (by simp) y (by simp)
          rw [insertBackwards, hzy]
          rfl
      rw [List.foldl_cons, hy, ih (y :: zs) (by simpa using hzs)]
      simp
  rw [stableSort, insertAll, List.reverse_nil, hinsert xs [] (by simpa using h)]
  simp

/-- Items of which none has to stand before another stay as they are. -/
theorem stableSort_of_level {xs : List α} (h : ∀ x ∈ xs, ∀ y ∈ xs, before x y = false) : stableSort before xs = xs :=
  stableSort_of_pairwise (List.pairwise_of_forall_mem_list fun x hx y hy => h y hy x hx)

/-- An item is not moved past what it does not have to stand before. -/
theorem insertBackwards_append {x : α} {ys zs : List α} (h : ∀ z ∈ zs, before x z = false) :
    insertBackwards before x (ys ++ zs) = insertBackwards before x ys ++ zs := by
  induction ys with
  | nil =>
    cases zs with
    | nil => rfl
    | cons z rest =>
      change insertBackwards before x (z :: rest) = x :: z :: rest
      rw [insertBackwards, h z List.mem_cons_self]
      rfl
  | cons y rest ih =>
    rw [List.cons_append, insertBackwards, insertBackwards, ih]
    split <;> rfl

/-- **Items that none of the later ones has to stand before** are sorted by themselves. -/
theorem stableSort_append {xs ys : List α} (h : ∀ y ∈ ys, ∀ x ∈ xs, before y x = false) :
    stableSort before (xs ++ ys) = stableSort before xs ++ stableSort before ys := by
  have hinsert : ∀ (ys zs ws : List α), (∀ y ∈ ys, ∀ w ∈ ws, before y w = false) →
      ys.foldl (fun sorted y => insertBackwards before y sorted) (zs ++ ws) =
        ys.foldl (fun sorted y => insertBackwards before y sorted) zs ++ ws := by
    intro ys
    induction ys with
    | nil => exact fun _ _ _ => rfl
    | cons y rest ih =>
      intro zs ws hws
      rw [List.foldl_cons, List.foldl_cons, insertBackwards_append (hws y List.mem_cons_self)]
      exact ih _ ws fun y hy => hws y (List.mem_cons_of_mem _ hy)
  have hsorted : ∀ y ∈ ys, ∀ x ∈ (stableSort before xs).reverse, before y x = false := fun y hy x hx =>
    h y hy x ((perm_stableSort before xs).mem_iff.1 (List.mem_reverse.1 hx))
  have hreverse : (stableSort before xs).reverse = xs.foldl (fun sorted x => insertBackwards before x sorted) [] := by
    rw [stableSort, insertAll, List.reverse_reverse, List.reverse_nil]
  have hsplit := hinsert ys [] _ hsorted
  rw [List.nil_append, hreverse] at hsplit
  rw [stableSort, insertAll, List.reverse_nil, List.foldl_append, hsplit, List.reverse_append]
  rfl

/-- An item that none of the later ones has to stand before stays in front. -/
theorem stableSort_cons {x : α} {xs : List α} (h : ∀ y ∈ xs, before y x = false) :
    stableSort before (x :: xs) = x :: stableSort before xs :=
  stableSort_append fun y hy z hz => by rw [List.mem_singleton.1 hz]; exact h y hy

/-- An item that has to stand before none of the earlier ones stays at the end. -/
theorem stableSort_concat {y : α} {xs : List α} (h : ∀ x ∈ xs, before y x = false) :
    stableSort before (xs ++ [y]) = stableSort before xs ++ [y] :=
  stableSort_append fun z hz x hx => by rw [List.mem_singleton.1 hz]; exact h x hx

end Suggest
