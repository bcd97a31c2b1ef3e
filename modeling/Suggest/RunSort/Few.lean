/-
# Sorting a few items

The two halves of a short list are sorted apart, and merged from both ends. In a half the first items are sorted in a way of
their own, and the others are inserted one after the other:

| items of the list | bytes of an item | sorted first |
| ---: | ---: | --- |
| less than 8 | any | one item |
| 8 or more | any | four items, with five comparisons |
| 16 or more | 16 or less | eight items, which are two times four, merged from both ends |
-/

import Suggest.RunSort.Merge

namespace Suggest
namespace RunSort

variable {α : Type}

/-- Two items, swapped if the second one has to stand before the first. -/
def sortTwo (before : α → α → Bool) (a b : α) : List α := if before b a then [b, a] else [a, b]

/-- Four items, of which the first two are sorted, and the last two as well: the first items of the pairs settle which is
the first of all, the last items which is the last. -/
def sortPairs (before : α → α → Bool) (a b c d : α) : List α :=
  match before c a, before d b with
  | false, false => a :: (sortTwo before b c ++ [d])
  | false, true => a :: (sortTwo before c d ++ [b])
  | true, false => c :: (sortTwo before a b ++ [d])
  | true, true => c :: (sortTwo before a d ++ [b])

/-- Sort four items. -/
def sortFour (before : α → α → Bool) (a b c d : α) : List α :=
  match before b a, before d c with
  | false, false => sortPairs before a b c d
  | false, true => sortPairs before a b d c
  | true, false => sortPairs before b a c d
  | true, true => sortPairs before b a d c

/-- Sort the first four items, and insert the others. -/
def sortFromFour (before : α → α → Bool) : List α → List α
  | a :: b :: c :: d :: rest => insertAll before (sortFour before a b c d) rest
  | xs => stableSort before xs

/-- Sort the first eight items, if the relation does not contradict itself, and insert the others. -/
def sortFromEight? (before : α → α → Bool) : List α → Option (List α)
  | a :: b :: c :: d :: e :: f :: g :: i :: rest =>
    (mergeEnds? before (sortFour before a b c d) (sortFour before e f g i)).map fun sorted => insertAll before sorted rest
  | xs => some (stableSort before xs)

/-- Sort a half of a list with `n` items that take `size` bytes each, if the relation does not contradict itself. -/
def sortHalf? (size : Nat) (before : α → α → Bool) (n : Nat) (xs : List α) : Option (List α) :=
  if size ≤ 16 ∧ 16 ≤ n then sortFromEight? before xs
  else if 8 ≤ n then some (sortFromFour before xs)
  else some (stableSort before xs)

/-- Sort a list of a few items that take `size` bytes each, if the relation does not contradict itself. -/
def sortFew? (size : Nat) (before : α → α → Bool) (xs : List α) : Option (List α) := do
  let ahead ← sortHalf? size before xs.length (xs.take (xs.length / 2))
  let behind ← sortHalf? size before xs.length (xs.drop (xs.length / 2))
  mergeEnds? before ahead behind

theorem perm_sortTwo (before : α → α → Bool) (a b : α) : (sortTwo before a b).Perm [a, b] := by
  rw [sortTwo]
  split
  · exact .swap a b []
  · exact .refl _

theorem perm_sortPairs (before : α → α → Bool) (a b c d : α) : (sortPairs before a b c d).Perm [a, b, c, d] := by
  rw [sortPairs]
  split
  · exact ((perm_sortTwo before b c).append_right [d]).cons a
  · refine (((perm_sortTwo before c d).append_right [b]).cons a).trans (.cons a ?_)
    exact (List.perm_append_comm : ([c, d] ++ [b]).Perm ([b] ++ [c, d]))
  · refine (((perm_sortTwo before a b).append_right [d]).cons c).trans ?_
    exact (List.perm_middle.symm : (c :: ([a, b] ++ [d])).Perm ([a, b] ++ c :: [d]))
  · refine (((perm_sortTwo before a d).append_right [b]).cons c).trans ?_
    refine (List.Perm.swap a c [d, b]).trans (.cons a ?_)
    exact (List.perm_append_comm : ([c, d] ++ [b]).Perm ([b] ++ [c, d]))

theorem perm_sortFour (before : α → α → Bool) (a b c d : α) : (sortFour before a b c d).Perm [a, b, c, d] := by
  rw [sortFour]
  split
  · exact perm_sortPairs before a b c d
  · exact (perm_sortPairs before a b d c).trans (((List.Perm.swap c d []).cons b).cons a)
  · exact (perm_sortPairs before b a c d).trans (.swap a b [c, d])
  · exact (perm_sortPairs before b a d c).trans
      ((List.Perm.swap a b [d, c]).trans (((List.Perm.swap c d []).cons b).cons a))

theorem perm_sortFromFour (before : α → α → Bool) (xs : List α) : (sortFromFour before xs).Perm xs := by
  rw [sortFromFour.eq_def]
  split
  · next a b c d rest =>
    exact (perm_insertAll before _ rest).trans ((perm_sortFour before a b c d).append_right rest)
  · exact perm_stableSort before xs

theorem perm_sortFromEight? {before : α → α → Bool} {xs ys : List α} (h : sortFromEight? before xs = some ys) :
    ys.Perm xs := by
  rw [sortFromEight?.eq_def] at h
  split at h
  · next a b c d e f g i rest =>
    obtain ⟨sorted, hsorted, rfl⟩ := Option.map_eq_some_iff.1 h
    have height : sorted.Perm ([a, b, c, d] ++ [e, f, g, i]) :=
      (perm_mergeEnds? hsorted).trans ((perm_sortFour before ..).append (perm_sortFour before ..))
    exact (perm_insertAll before sorted rest).trans (height.append_right rest)
  · cases h
    exact perm_stableSort before xs

theorem perm_sortHalf? {size : Nat} {before : α → α → Bool} {n : Nat} {xs ys : List α}
    (h : sortHalf? size before n xs = some ys) : ys.Perm xs := by
  rw [sortHalf?] at h
  split at h
  · exact perm_sortFromEight? h
  · split at h <;> cases h
    · exact perm_sortFromFour before xs
    · exact perm_stableSort before xs

/-- Sorting keeps every item. -/
theorem perm_sortFew? {size : Nat} {before : α → α → Bool} {xs ys : List α} (h : sortFew? size before xs = some ys) :
    ys.Perm xs := by
  obtain ⟨ahead, hahead, h⟩ := Option.bind_eq_some_iff.1 h
  obtain ⟨behind, hbehind, h⟩ := Option.bind_eq_some_iff.1 h
  have hhalves := (perm_mergeEnds? h).trans ((perm_sortHalf? hahead).append (perm_sortHalf? hbehind))
  rwa [List.take_append_drop] at hhalves

end RunSort
end Suggest
