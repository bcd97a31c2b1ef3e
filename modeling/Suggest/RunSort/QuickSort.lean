/-
# Sorting by pivots

A longer piece is split at one of its items, the pivot, into what has to stand before it and the rest, which keeps the
pivot at its place, and both parts are sorted the same way. If nothing has to stand before the pivot, or the rest of an
earlier pivot has a pivot that need not stand behind that one, then what need not stand behind the pivot is level with it;
it comes first and is not sorted any further.

The pivot is the middle one of three items at the beginning, in the middle and towards the end, each of which is the middle
one of three in the same way if there are enough items. A piece that is split too often is sorted in another way.
-/

import Suggest.RunSort.MergeTree

namespace Suggest
namespace RunSort

variable {α : Type}

/-- The middle one of three places: the first one, if one of the others stands on each side of it. -/
def medianPlace (before : Nat → Nat → Bool) (a b c : Nat) : Nat :=
  if before a b = before a c then if before b c = before a b then b else c else a

/-- A place in the middle of the order: the median of `place` and the places `4 * step` and `7 * step` further on, or of
three such medians in finer steps. -/
def middlePlace (before : Nat → Nat → Bool) (step place : Nat) : Nat :=
  if 8 ≤ step then
    medianPlace before (middlePlace before (step / 8) place) (middlePlace before (step / 8) (place + 4 * step))
      (middlePlace before (step / 8) (place + 7 * step))
  else medianPlace before place (place + 4 * step) (place + 7 * step)
termination_by step

/-- The place of the pivot. -/
def pivotPlace (before : α → α → Bool) (xs : List α) : Nat :=
  let items := xs.toArray
  middlePlace
    (fun i j => match items[i]?, items[j]? with
      | some x, some y => before x y
      | _, _ => false)
    (xs.length / 8) 0

/-- Sort items that take `size` bytes each, splitting no part more than `limit` times. The ancestor is the pivot whose rest
the list is or begins. -/
def quickSort? (size : Nat) (before : α → α → Bool) : Nat → Option α → List α → Option (List α)
  | 0, _, xs => if xs.length ≤ fewItems then sortFew? size before xs else sortByFew? size before xs
  | limit + 1, ancestor, xs =>
    if xs.length ≤ fewItems then sortFew? size before xs
    else
      let place := pivotPlace before xs
      match xs.drop place with
      | [] => sortByFew? size before xs
      | pivot :: behind =>
        let ahead := xs.take place
        let lower := (ahead ++ behind).filter fun x => before x pivot
        if lower.isEmpty || ancestor.any fun a => !before a pivot then do
          let upper ← quickSort? size before limit none ((ahead ++ behind).filter fun x => before pivot x)
          return ahead.filter (fun x => !before pivot x) ++ pivot :: behind.filter (fun x => !before pivot x) ++ upper
        else do
          let upper ← quickSort? size before limit (some pivot)
            (ahead.filter (fun x => !before x pivot) ++ pivot :: behind.filter fun x => !before x pivot)
          let lower ← quickSort? size before limit ancestor lower
          return lower ++ upper

/-- Sort a piece, by no more pivots than twice the number of bits of its length. -/
def sortPiece? (size : Nat) (before : α → α → Bool) (xs : List α) : Option (List α) :=
  quickSort? size before (2 * xs.length.log2) none xs

/-- Sorting keeps every item. -/
theorem keepsItems_quickSort? (size : Nat) (before : α → α → Bool) (limit : Nat) (ancestor : Option α) :
    KeepsItems (quickSort? size before limit ancestor) := by
  intro xs ys h
  induction limit generalizing ancestor xs ys with
  | zero =>
    rw [quickSort?] at h
    split at h
    · exact perm_sortFew? h
    · exact keepsItems_sortByFew? size before _ _ h
  | succ limit ih =>
    rw [quickSort?] at h
    split at h
    · exact perm_sortFew? h
    · have hxs := List.take_append_drop (pivotPlace before xs) xs
      simp only at h
      split at h
      · exact keepsItems_sortByFew? size before _ _ h
      · next pivot behind hp =>
        rw [hp] at hxs
        generalize xs.take (pivotPlace before xs) = ahead at h hxs
        subst hxs
        split at h
        · obtain ⟨upper, hu, h⟩ := Option.bind_eq_some_iff.1 h
          cases h
          have hu := ih _ _ _ hu
          have ha := List.filter_append_perm (fun x => before pivot x) ahead
          have hb := List.filter_append_perm (fun x => before pivot x) behind
          classical
          rw [List.perm_iff_count] at hu ha hb ⊢
          intro a
          have hu := hu a
          have ha := ha a
          have hb := hb a
          simp only [List.filter_append, List.count_append, List.count_cons] at hu ha hb ⊢
          omega
        · obtain ⟨upper, hu, h⟩ := Option.bind_eq_some_iff.1 h
          obtain ⟨lower, hl, h⟩ := Option.bind_eq_some_iff.1 h
          cases h
          have hu := ih _ _ _ hu
          have hl := ih _ _ _ hl
          have ha := List.filter_append_perm (fun x => before x pivot) ahead
          have hb := List.filter_append_perm (fun x => before x pivot) behind
          classical
          rw [List.perm_iff_count] at hu hl ha hb ⊢
          intro a
          have hu := hu a
          have hl := hl a
          have ha := ha a
          have hb := hb a
          simp only [List.filter_append, List.count_append, List.count_cons] at hu hl ha hb ⊢
          omega

end RunSort
end Suggest
