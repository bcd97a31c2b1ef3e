/-
# Runs

A run is a part of a list that is sorted, or one that is still to be sorted. A list is cut into runs (`Run.cut`): a run
goes on as long as no item has to stand before the one ahead of it, or as long as every item has to, and a falling run is
reversed. If it is not long enough, a piece of fixed length is taken instead, which is still to be sorted.
-/

import Suggest.RunSort.Merge

namespace Suggest
namespace RunSort

variable {α : Type}

/-- A part of a list, and whether it is sorted already. -/
structure Run (α : Type) where
  items : List α
  sorted : Bool

namespace Run

/-- How many items carry on a run that ends with the given item. In a falling run each item has to stand before the one
ahead of it, in a rising run none has to. -/
def reach (before : α → α → Bool) (falling : Bool) : α → List α → Nat
  | _, [] => 0
  | x, y :: rest => if before y x = falling then reach before falling y rest + 1 else 0

/-- Whether the first two items fall. -/
def startsFalling (before : α → α → Bool) (x : α) : List α → Bool
  | [] => false
  | y :: _ => before y x

/-- Cut a list into runs of at least `good` items, and into pieces of `piece` items that are still to be sorted. -/
def cut (before : α → α → Bool) (good piece : Nat) : List α → List (Run α)
  | [] => []
  | x :: rest =>
    let falling := startsFalling before x rest
    let more := reach before falling x rest
    if good ≤ more + 1 then
      let items := x :: rest.take more
      ⟨if falling then items.reverse else items, true⟩ :: cut before good piece (rest.drop more)
    else ⟨x :: rest.take (piece - 1), false⟩ :: cut before good piece (rest.drop (piece - 1))
termination_by xs => xs.length
decreasing_by all_goals simp only [List.length_cons, List.length_drop]; omega

/-- Sort a run, unless it is sorted. -/
def settle? (sortItems? : List α → Option (List α)) (r : Run α) : Option (Run α) :=
  if r.sorted then some r else (sortItems? r.items).map fun items => ⟨items, true⟩

/-- Join two neighbours. If one of them is sorted, or if there is no room for as many items, they are merged, and otherwise
they are left to be sorted together. -/
def join? (before : α → α → Bool) (sortItems? : List α → Option (List α)) (room : Nat) (a b : Run α) : Option (Run α) :=
  if a.sorted || b.sorted || room < a.items.length + b.items.length then do
    let a ← a.settle? sortItems?
    let b ← b.settle? sortItems?
    return ⟨merge before a.items b.items, true⟩
  else some ⟨a.items ++ b.items, false⟩

end Run

/-- Whether a way of sorting keeps every item. -/
def KeepsItems (sortItems? : List α → Option (List α)) : Prop := ∀ xs ys, sortItems? xs = some ys → ys.Perm xs

namespace Run

/-- The runs of a list have the items of the list. -/
theorem perm_cut (before : α → α → Bool) (good piece : Nat) (xs : List α) :
    ((cut before good piece xs).flatMap items).Perm xs := by
  fun_induction cut before good piece xs with
  | case1 => exact .refl _
  | case2 x rest falling more h list ih =>
    have hl : (if falling = true then list.reverse else list).Perm list := by
      split
      · exact List.reverse_perm list
      · exact .refl _
    have := hl.append ih
    simpa [list] using this
  | case3 x rest falling more h ih => simpa using (List.Perm.refl (x :: rest.take (piece - 1))).append ih

theorem perm_settle? {sortItems? : List α → Option (List α)} (hs : KeepsItems sortItems?) {r s : Run α}
    (h : r.settle? sortItems? = some s) : s.items.Perm r.items := by
  rw [settle?] at h
  split at h
  · cases h; exact .refl _
  · obtain ⟨items, hi, rfl⟩ := Option.map_eq_some_iff.1 h
    exact hs _ _ hi

theorem perm_join? {before : α → α → Bool} {sortItems? : List α → Option (List α)} (hs : KeepsItems sortItems?)
    {room : Nat} {a b r : Run α} (h : a.join? before sortItems? room b = some r) : r.items.Perm (a.items ++ b.items) := by
  rw [join?] at h
  split at h
  · obtain ⟨c, hc, h⟩ := Option.bind_eq_some_iff.1 h
    obtain ⟨d, hd, h⟩ := Option.bind_eq_some_iff.1 h
    cases h
    exact (perm_merge before _ _).trans ((perm_settle? hs hc).append (perm_settle? hs hd))
  · cases h; exact .refl _

end Run

end RunSort
end Suggest
