/-
# Stable sorting

The items are inserted one after the other, each from behind: it moves forward past the items that it has to stand before,
and no further. So items of which neither has to stand before the other keep their order, and the result is settled for
every relation, also for one that is no order.
-/

namespace Suggest

variable {α : Type}

/-- Insert an item into a list that is written backwards. -/
def insertBackwards (before : α → α → Bool) (x : α) : List α → List α
  | [] => [x]
  | y :: rest => if before x y then y :: insertBackwards before x rest else x :: y :: rest

/-- Insert items into a sorted list, one after the other. -/
def insertAll (before : α → α → Bool) (sorted xs : List α) : List α :=
  (xs.foldl (fun sorted x => insertBackwards before x sorted) sorted.reverse).reverse

/-- Sort a list, inserting its items from behind. -/
def stableSort (before : α → α → Bool) (xs : List α) : List α := insertAll before [] xs

theorem perm_insertBackwards (before : α → α → Bool) (x : α) (ys : List α) :
    (insertBackwards before x ys).Perm (x :: ys) := by
  induction ys with
  | nil => exact .refl _
  | cons y rest ih =>
    rw [insertBackwards]
    split
    · exact (ih.cons y).trans (.swap x y rest)
    · exact .refl _

/-- Inserting keeps every item. -/
theorem perm_insertAll (before : α → α → Bool) (sorted xs : List α) :
    (insertAll before sorted xs).Perm (sorted ++ xs) := by
  have h : ∀ (xs ys : List α),
      (xs.foldl (fun sorted x => insertBackwards before x sorted) ys).Perm (ys ++ xs) := by
    intro xs
    induction xs with
    | nil => simp
    | cons x xs ih =>
      intro ys
      rw [List.foldl_cons]
      exact (ih _).trans (((perm_insertBackwards before x ys).append_right xs).trans
        (List.perm_middle.symm : (x :: (ys ++ xs)).Perm (ys ++ x :: xs)))
  exact (List.reverse_perm _).trans ((h xs _).trans ((List.reverse_perm sorted).append_right xs))

/-- Sorting keeps every item. -/
theorem perm_stableSort (before : α → α → Bool) (xs : List α) : (stableSort before xs).Perm xs :=
  perm_insertAll before [] xs

end Suggest
