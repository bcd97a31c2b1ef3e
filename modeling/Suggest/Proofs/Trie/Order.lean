/-
# The order in which a search visits places

A search visits a place before those below it, and the children of a place in the order of their characters.  So the paths of
the places that it visits ascend (`IsTree.pairwise_trail`), and what it meets is gathered from one place after the other until
there is enough (`collect_eq_gather`).
-/

import Mathlib.Data.List.Basic
import Suggest.Proofs.Trie.Search

namespace Suggest

/-- Items from one batch after the other, until there are as many as wanted. -/
def gather {α : Type} (wanted : Nat) (got : List α) : List (List α) → List α
  | [] => got
  | batch :: rest => if wanted ≤ (got ++ batch).length then got ++ batch else gather wanted (got ++ batch) rest

section Gather

variable {α β : Type}

/-- Empty batches add nothing. -/
theorem gather_filter {wanted : Nat} {got : List α} (h : got.length < wanted) (batches : List (List α)) :
    gather wanted got (batches.filter fun batch => !batch.isEmpty) = gather wanted got batches := by
  induction batches generalizing got with
  | nil => rfl
  | cons batch rest ih =>
    cases batch with
    | nil =>
      rw [List.filter_cons_of_neg (by simp), gather, List.append_nil, if_neg (Nat.not_le.2 h)]
      exact ih h
    | cons a more =>
      rw [List.filter_cons_of_pos (by simp), gather, gather]
      split
      · rfl
      · next hmore => exact ih (Nat.lt_of_not_le hmore)

theorem map_gather (f : α → β) (wanted : Nat) (got : List α) (batches : List (List α)) :
    (gather wanted got batches).map f = gather wanted (got.map f) (batches.map (List.map f)) := by
  induction batches generalizing got with
  | nil => rfl
  | cons batch rest ih =>
    rw [List.map_cons, gather, gather, ← List.map_append, List.length_map]
    split
    · rfl
    · exact ih _

theorem mem_gather {wanted : Nat} {got : List α} {batches : List (List α)} {a : α} (h : a ∈ gather wanted got batches) :
    a ∈ got ∨ ∃ batch ∈ batches, a ∈ batch := by
  induction batches generalizing got with
  | nil => exact .inl h
  | cons batch rest ih =>
    have hmem : a ∈ got ++ batch ∨ ∃ batch ∈ rest, a ∈ batch := by
      rw [gather] at h
      split at h
      · exact .inl h
      · exact ih h
    rcases hmem with hmem | ⟨other, hother, hmem⟩
    · rcases List.mem_append.1 hmem with hmem | hmem
      · exact .inl hmem
      · exact .inr ⟨batch, List.mem_cons_self, hmem⟩
    · exact .inr ⟨other, List.mem_cons_of_mem _ hother, hmem⟩

end Gather

namespace Trie

/-- What a search meets, place by place. -/
theorem collect_eq_gather (t : Trie) (limit fuel : Nat) (stack : List Nat) (met : List Match) :
    t.collect limit fuel stack met = gather limit met ((t.visit fuel stack).map fun p => (t.node p).matches) := by
  induction fuel generalizing stack met with
  | zero => rfl
  | succ fuel ih =>
    cases stack with
    | nil => rfl
    | cons place stack => rw [collect, visit, List.map_cons, gather, ih]

/-- The places that are visited with the paths to them, given those to the places on the stack. -/
def trail (t : Trie) : Nat → List (List Char × Nat) → List (List Char × Nat)
  | 0, _ => []
  | _, [] => []
  | fuel + 1, (path, place) :: stack =>
    (path, place) :: t.trail fuel ((t.node place).children.toList.map (fun b => (path ++ [b.1], b.2)) ++ stack)

theorem map_snd_trail (t : Trie) (fuel : Nat) (stack : List (List Char × Nat)) :
    (t.trail fuel stack).map Prod.snd = t.visit fuel (stack.map Prod.snd) := by
  induction fuel generalizing stack with
  | zero => rfl
  | succ fuel ih =>
    cases stack with
    | nil => rfl
    | cons x stack =>
      obtain ⟨path, place⟩ := x
      rw [trail, List.map_cons, ih, List.map_append, List.map_map, List.map_cons, visit]
      rfl

theorem map_snd_trail_singleton (t : Trie) (fuel : Nat) (path : List Char) (place : Nat) :
    (t.trail fuel [(path, place)]).map Prod.snd = t.visit fuel [place] := map_snd_trail t fuel _

/-- Whether every path that goes on from one is before every path that goes on from another. -/
def Precedes (cs ds : List Char) : Prop := ∀ xs ys, cs ++ xs < ds ++ ys

theorem Precedes.append {cs ds : List Char} (h : Precedes cs ds) (xs : List Char) : Precedes (cs ++ xs) ds := by
  intro ys zs
  rw [List.append_assoc]
  exact h _ _

theorem precedes_concat (cs : List Char) {c d : Char} (h : c < d) : Precedes (cs ++ [c]) (cs ++ [d]) := by
  intro xs ys
  rw [List.append_assoc, List.append_assoc]
  exact List.append_left_lt (List.cons_lt_cons_iff.2 (.inl h))

theorem lt_append_cons (cs : List Char) (c : Char) (ds : List Char) : cs < cs ++ c :: ds := by
  have h : cs ++ [] < cs ++ c :: ds := List.append_left_lt (List.nil_lt_cons c ds)
  rwa [List.append_nil] at h

/-- Whether the paths on a stack lead to its places, and all that goes on from one is before all that goes on from the
next. -/
structure Ascending (nodes : Array Node) (stack : List (List Char × Nat)) : Prop where
  paths : ∀ x ∈ stack, walk nodes 0 x.1 = some x.2
  ordered : stack.Pairwise fun x y => Precedes x.1 y.1

theorem IsTree.ascending_next {t : Trie} (h : IsTree t.nodes) {path : List Char} {place : Nat}
    {stack : List (List Char × Nat)} (hstack : Ascending t.nodes ((path, place) :: stack)) :
    Ascending t.nodes ((t.node place).children.toList.map (fun b => (path ++ [b.1], b.2)) ++ stack) := by
  have hpath : walk t.nodes 0 path = some place := hstack.paths (path, place) List.mem_cons_self
  have hnode := getElem?_eq_node (h.walk_lt h.rooted hpath)
  obtain ⟨hbefore, hrest⟩ := List.pairwise_cons.1 hstack.ordered
  refine ⟨fun x hx => ?_, List.pairwise_append.2 ⟨?_, hrest, fun x hx y hy => ?_⟩⟩
  · rcases List.mem_append.1 hx with hx | hx
    · obtain ⟨b, hb, rfl⟩ := List.mem_map.1 hx
      exact walk_concat_eq_some_iff.2
        ⟨place, hpath, child?_eq_some_iff.2 ⟨_, hnode, SortedMap.get?_eq_some_iff.2 hb⟩⟩
    · exact hstack.paths x (List.mem_cons_of_mem _ hx)
  · have hordered := (t.node place).children.ordered
    rw [List.pairwise_map] at hordered ⊢
    exact hordered.imp fun hlt => precedes_concat path hlt
  · obtain ⟨b, -, rfl⟩ := List.mem_map.1 hx
    exact (hbefore y hy).append [b.1]

/-- A path that is visited leads to its place and goes on from one on the stack. -/
theorem IsTree.mem_trail {t : Trie} (h : IsTree t.nodes) (fuel : Nat) {stack : List (List Char × Nat)}
    (hstack : Ascending t.nodes stack) {x : List Char × Nat} (hx : x ∈ t.trail fuel stack) :
    walk t.nodes 0 x.1 = some x.2 ∧ ∃ y ∈ stack, y.1 <+: x.1 := by
  induction fuel generalizing stack with
  | zero => cases hx
  | succ fuel ih =>
    cases stack with
    | nil => cases hx
    | cons y stack =>
      obtain ⟨path, place⟩ := y
      rw [trail] at hx
      rcases List.mem_cons.1 hx with rfl | hx
      · exact ⟨hstack.paths _ List.mem_cons_self, _, List.mem_cons_self, List.prefix_rfl⟩
      · obtain ⟨hwalk, y, hy, hstarts⟩ := ih (h.ascending_next hstack) hx
        refine ⟨hwalk, ?_⟩
        rcases List.mem_append.1 hy with hy | hy
        · obtain ⟨b, -, rfl⟩ := List.mem_map.1 hy
          exact ⟨(path, place), List.mem_cons_self, (List.prefix_append path [b.1]).trans hstarts⟩
        · exact ⟨y, List.mem_cons_of_mem _ hy, hstarts⟩

/-- **The paths of the places that are visited ascend.** -/
theorem IsTree.pairwise_trail {t : Trie} (h : IsTree t.nodes) (fuel : Nat) {stack : List (List Char × Nat)}
    (hstack : Ascending t.nodes stack) : (t.trail fuel stack).Pairwise fun x y => x.1 < y.1 := by
  induction fuel generalizing stack with
  | zero => exact List.Pairwise.nil
  | succ fuel ih =>
    cases stack with
    | nil => exact List.Pairwise.nil
    | cons y stack =>
      obtain ⟨path, place⟩ := y
      have hnext := h.ascending_next hstack
      rw [trail]
      refine List.pairwise_cons.2 ⟨fun x hx => ?_, ih hnext⟩
      obtain ⟨-, y, hy, ds, hds⟩ := h.mem_trail fuel hnext hx
      rw [← hds]
      rcases List.mem_append.1 hy with hy | hy
      · obtain ⟨b, -, rfl⟩ := List.mem_map.1 hy
        rw [List.append_assoc]
        exact lt_append_cons path b.1 ds
      · have hlt := (List.pairwise_cons.1 hstack.ordered).1 y hy [] ds
        rwa [List.append_nil] at hlt

theorem ascending_singleton {nodes : Array Node} {path : List Char} {place : Nat}
    (h : walk nodes 0 path = some place) : Ascending nodes [(path, place)] :=
  ⟨fun x hx => by rwa [List.mem_singleton.1 hx], List.pairwise_singleton _ _⟩

/-- **With fuel for all nodes every path that goes on from one is visited, and no other.** -/
theorem IsTree.mem_trail_iff {t : Trie} (h : IsTree t.nodes) {path : List Char} {place : Nat}
    (hpath : walk t.nodes 0 path = some place) {x : List Char × Nat} :
    x ∈ t.trail t.nodes.size [(path, place)] ↔ path <+: x.1 ∧ walk t.nodes 0 x.1 = some x.2 := by
  have hstack := ascending_singleton hpath
  constructor
  · intro hx
    obtain ⟨hwalk, y, hy, hstarts⟩ := h.mem_trail _ hstack hx
    rw [List.mem_singleton.1 hy] at hstarts
    exact ⟨hstarts, hwalk⟩
  · obtain ⟨cs, k⟩ := x
    rintro ⟨⟨ds, rfl⟩, hwalk⟩
    have hbelow : Below t.nodes place k := by
      rw [walk_append, hpath] at hwalk
      exact ⟨ds, hwalk⟩
    have hvisit := (h.mem_visit_iff (h.stacked_singleton hpath)).2 ⟨place, List.mem_singleton_self place, hbelow⟩
    rw [← map_snd_trail_singleton t _ path] at hvisit
    obtain ⟨y, hy, rfl⟩ := List.mem_map.1 hvisit
    have hpaths : y.1 = path ++ ds := h.path_unique (h.mem_trail _ hstack hy).1 hwalk
    rwa [← hpaths]

end Trie
end Suggest
