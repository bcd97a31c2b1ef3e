/-
# Merging runs

The runs of a list are merged two neighbours at a time, as a tree says. The boundary between two runs has a height: with the
list stretched over a power of two, the number of the highest bit in which the middles of the two runs differ. A higher
boundary is merged later, and of two boundaries of one height the left one first (`MergeTree.ofRuns`).
-/

import Suggest.RunSort.Few
import Suggest.RunSort.Run

namespace Suggest
namespace RunSort

variable {α : Type}

/-- The order in which runs are merged. -/
inductive MergeTree (α : Type) where
  | leaf (r : Run α)
  | join (left right : MergeTree α)

/-- A tree that waits for what stands behind it, and the height of the boundary there. -/
structure Waiting (α : Type) where
  tree : MergeTree α
  height : Nat

/-- The height of the boundary at `middle` between two runs of a list of `n` items, of which the first begins at `start`
and the second ends at `stop`. -/
def boundaryHeight (n start middle stop : Nat) : Nat :=
  let stretch := ((1 <<< 62) + n - 1) / n
  ((stretch * (start + middle)) ^^^ (stretch * (middle + stop))).log2

namespace MergeTree

/-- The runs, one behind the other. -/
def runs : MergeTree α → List (Run α)
  | .leaf r => [r]
  | .join left right => left.runs ++ right.runs

/-- Join a tree with all the trees that wait in front of it, the nearest one first. -/
def finish (waiting : List (Waiting α)) (tree : MergeTree α) : MergeTree α :=
  waiting.foldl (fun tree w => .join w.tree tree) tree

/-- Join a tree with those that wait behind boundaries of no more than a height. -/
def collapse (height : Nat) : List (Waiting α) → MergeTree α → MergeTree α × List (Waiting α)
  | [], tree => (tree, [])
  | w :: waiting, tree =>
    if w.height ≤ height then collapse height waiting (.join w.tree tree) else (tree, w :: waiting)

/-- The tree of the trees that wait, of a run that begins at `start`, and of the runs behind it, in a list of `n` items. -/
def ofRuns (n : Nat) (waiting : List (Waiting α)) (start : Nat) (r : Run α) : List (Run α) → MergeTree α
  | [] => finish waiting (.leaf r)
  | next :: rest =>
    let middle := start + r.items.length
    let height := boundaryHeight n start middle (middle + next.items.length)
    let (tree, waiting) := collapse height waiting (.leaf r)
    ofRuns n (⟨tree, height⟩ :: waiting) middle next rest

/-- Sort the runs if that is to be done at once, and merge them. -/
def merged? (before : α → α → Bool) (sortItems? : List α → Option (List α)) (atOnce : Bool) (room : Nat) :
    MergeTree α → Option (Run α)
  | .leaf r => if atOnce then r.settle? sortItems? else some r
  | .join left right => do
    let left ← left.merged? before sortItems? atOnce room
    let right ← right.merged? before sortItems? atOnce room
    left.join? before sortItems? room right

end MergeTree

/-- How long a run of a list of `n` items has to be: half as long as the list but no more than 64, and in a long list about
the square root of its length. -/
def goodLength (n : Nat) : Nat :=
  if n ≤ 4096 then min (n - n / 2) 64
  else
    let halfBits := (1 + n.log2) / 2
    ((1 <<< halfBits) + (n >>> halfBits)) / 2

/-- Sort a list by its runs, and what is no run in pieces, which are sorted at once, or as late as there is room for. -/
def sortByRuns? (before : α → α → Bool) (sortItems? : List α → Option (List α)) (atOnce : Bool) (piece room : Nat)
    (xs : List α) : Option (List α) :=
  match Run.cut before (goodLength xs.length) piece xs with
  | [] => some []
  | r :: rest => do
    let r ← (MergeTree.ofRuns xs.length [] 0 r rest).merged? before sortItems? atOnce room
    let r ← r.settle? sortItems?
    return r.items

/-- The number of items that are sorted without further ado. -/
def fewItems : Nat := 32

/-- Sort a list by its runs, and what is no run in pieces of a few items that take `size` bytes each. -/
def sortByFew? (size : Nat) (before : α → α → Bool) (xs : List α) : Option (List α) :=
  sortByRuns? before (sortFew? size before) true fewItems xs.length xs

namespace MergeTree

theorem runs_finish (waiting : List (Waiting α)) (tree : MergeTree α) :
    (finish waiting tree).runs = waiting.reverse.flatMap (fun w => w.tree.runs) ++ tree.runs := by
  induction waiting generalizing tree with
  | nil => rfl
  | cons w waiting ih =>
    have h := ih (.join w.tree tree)
    simp only [finish, List.foldl_cons] at h ⊢
    simp [h, runs]

theorem runs_collapse (height : Nat) (waiting : List (Waiting α)) (tree : MergeTree α) :
    (collapse height waiting tree).2.reverse.flatMap (fun w => w.tree.runs) ++ (collapse height waiting tree).1.runs =
      waiting.reverse.flatMap (fun w => w.tree.runs) ++ tree.runs := by
  induction waiting generalizing tree with
  | nil => rfl
  | cons w waiting ih =>
    rw [collapse]
    split
    · rw [ih]; simp [runs]
    · rfl

/-- A tree has its runs in their order. -/
theorem runs_ofRuns (n : Nat) (waiting : List (Waiting α)) (start : Nat) (r : Run α) (rest : List (Run α)) :
    (ofRuns n waiting start r rest).runs = waiting.reverse.flatMap (fun w => w.tree.runs) ++ r :: rest := by
  induction rest generalizing waiting start r with
  | nil => simp [ofRuns, runs_finish, runs]
  | cons next rest ih =>
    rw [ofRuns, ih]
    have h := runs_collapse (boundaryHeight n start (start + r.items.length)
      (start + r.items.length + next.items.length)) waiting (.leaf r)
    rw [List.reverse_cons, List.flatMap_append, List.flatMap_singleton, h, runs, List.append_assoc, List.singleton_append]

/-- Merging keeps every item. -/
theorem perm_merged? {before : α → α → Bool} {sortItems? : List α → Option (List α)} (hs : KeepsItems sortItems?)
    {atOnce : Bool} {room : Nat} {tree : MergeTree α} {r : Run α}
    (h : tree.merged? before sortItems? atOnce room = some r) : r.items.Perm (tree.runs.flatMap Run.items) := by
  induction tree generalizing r with
  | leaf s =>
    rw [runs, List.flatMap_singleton]
    rw [merged?] at h
    split at h
    · exact Run.perm_settle? hs h
    · cases h; exact .refl _
  | join left right ihl ihr =>
    rw [merged?] at h
    obtain ⟨a, ha, h⟩ := Option.bind_eq_some_iff.1 h
    obtain ⟨b, hb, h⟩ := Option.bind_eq_some_iff.1 h
    rw [runs, List.flatMap_append]
    exact (Run.perm_join? hs h).trans ((ihl ha).append (ihr hb))

end MergeTree

/-- Sorting keeps every item. -/
theorem keepsItems_sortByRuns? {before : α → α → Bool} {sortItems? : List α → Option (List α)}
    (hs : KeepsItems sortItems?) (atOnce : Bool) (piece room : Nat) :
    KeepsItems (sortByRuns? before sortItems? atOnce piece room) := by
  intro xs ys h
  have hc := Run.perm_cut before (goodLength xs.length) piece xs
  rw [sortByRuns?] at h
  split at h
  · next hr => rw [hr] at hc; cases h; exact hc
  · next r rest hr =>
    obtain ⟨m, hm, h⟩ := Option.bind_eq_some_iff.1 h
    obtain ⟨s, hs', h⟩ := Option.bind_eq_some_iff.1 h
    cases h
    have ht : (MergeTree.ofRuns xs.length [] 0 r rest).runs = r :: rest := MergeTree.runs_ofRuns xs.length [] 0 r rest
    rw [hr, ← ht] at hc
    exact (Run.perm_settle? hs hs').trans ((MergeTree.perm_merged? hs hm).trans hc)

theorem keepsItems_sortByFew? (size : Nat) (before : α → α → Bool) : KeepsItems (sortByFew? size before) :=
  fun xs => keepsItems_sortByRuns? (fun _ _ => perm_sortFew?) true fewItems xs.length xs

end RunSort
end Suggest
