/-
# Sorting by runs

A stable sort that uses what is sorted already. For a relation that is an order, the result is that of every stable sort.
A relation that is none may contradict itself, so that the result depends on which items are compared: then there may be no
result at all (`sort?`). What there is has the items of the list (`perm_sort?`).

| length | way of sorting |
| --- | --- |
| up to 20 | insertion |
| up to 64 | runs, and pieces of 32 items, which are sorted at once |
| more | runs, and pieces of the length of a good run, neighbours of which are sorted together by pivots |
-/

import Suggest.RunSort.QuickSort

namespace Suggest
namespace RunSort

variable {α : Type}

/-- How many items that take `size` bytes each there is room for beside `n` of them: for as many again up to eight million
bytes, and for half as many at least. -/
def roomFor (size n : Nat) : Nat := max (n - n / 2) (min n (8000000 / size))

/-- Sort a list of items that take `size` bytes each, if the relation does not contradict itself. -/
def sort? (size : Nat) (before : α → α → Bool) (xs : List α) : Option (List α) :=
  if xs.length ≤ 20 then some (stableSort before xs)
  else if xs.length ≤ 2 * fewItems then sortByFew? size before xs
  else sortByRuns? before (sortPiece? size before) false (goodLength xs.length) (roomFor size xs.length) xs

/-- A short list always has a result. -/
theorem sort?_of_length_le {size : Nat} {before : α → α → Bool} {xs : List α} (h : xs.length ≤ 20) :
    sort? size before xs = some (stableSort before xs) := by
  rw [sort?, if_pos h]

/-- Sorting keeps every item. -/
theorem perm_sort? {size : Nat} {before : α → α → Bool} {xs ys : List α} (h : sort? size before xs = some ys) :
    ys.Perm xs := by
  rw [sort?] at h
  split at h
  · cases h; exact perm_stableSort before xs
  split at h
  · exact keepsItems_sortByFew? size before xs ys h
  · exact keepsItems_sortByRuns? (fun xs ys => keepsItems_quickSort? size before (2 * xs.length.log2) none xs ys) false
      (goodLength xs.length) (roomFor size xs.length) xs ys h

end RunSort
end Suggest
