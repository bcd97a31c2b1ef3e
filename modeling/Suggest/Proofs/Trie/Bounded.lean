/-
# What a search with a limit finds

A search stops before it has met all that stands below its prefix.  What stands there has an order that does not depend on how
the search goes about: each node comes before its children, and these come in the order of their characters (`preorder`).  The
stack of the search is another way to write down what is left of that order (`IsTree.visit_eq_take`), so what is met are the
matches of the first nodes, of as many as it takes to have the limit, and of no more (`Shortest`, `shortest_iff`).

Those are what the search sorts and cuts, if it can sort them (`search?_eq_of_shortest`).
-/

import Suggest.Proofs.Trie.Accepted
import Suggest.Proofs.Trie.Contents
import Suggest.Proofs.Trie.Matches
import Suggest.Proofs.Trie.Order

namespace Suggest

section Shortest

variable {α : Type}

/-- Whether some items are those of the first of the batches, of as many as it takes to have as many items as wanted, and of no
more.  If all batches do not have as many, it is all of them. -/
def Shortest (wanted : Nat) (batches : List (List α)) (part : List α) : Prop :=
  ∃ n, part = (batches.take n).flatten ∧ (wanted ≤ part.length ∨ batches.length ≤ n) ∧
    ∀ m < n, (batches.take m).flatten.length < wanted

/-- No two parts are shortest. -/
theorem Shortest.unique {wanted : Nat} {batches : List (List α)} {part other : List α} (h : Shortest wanted batches part)
    (h' : Shortest wanted batches other) : part = other := by
  obtain ⟨n, rfl, hn, hbefore⟩ := h
  obtain ⟨m, rfl, hm, hbefore'⟩ := h'
  -- if one stops at an earlier batch, it does not have enough there, so there are no more batches
  rcases Nat.lt_trichotomy n m with hlt | rfl | hlt
  · have hall : batches.length ≤ n := hn.resolve_left (Nat.not_le.2 (hbefore' n hlt))
    rw [List.take_of_length_le hall, List.take_of_length_le (by omega)]
  · rfl
  · have hall : batches.length ≤ m := hm.resolve_left (Nat.not_le.2 (hbefore m hlt))
    rw [List.take_of_length_le hall, List.take_of_length_le (by omega)]

theorem shortest_gather {wanted : Nat} (hwanted : 0 < wanted) (batches : List (List α)) :
    Shortest wanted batches (gather wanted [] batches) := by
  -- the induction is on the batches that are left, so it needs what has been gathered before
  have hgather : ∀ (batches : List (List α)) (got : List α), got.length < wanted →
      ∃ n, gather wanted got batches = got ++ (batches.take n).flatten ∧
        (wanted ≤ (gather wanted got batches).length ∨ batches.length ≤ n) ∧
        ∀ m < n, (got ++ (batches.take m).flatten).length < wanted := by
    intro batches
    induction batches with
    | nil => exact fun got _ => ⟨0, by simp [gather], .inr (Nat.le_refl 0), fun m hm => absurd hm (Nat.not_lt_zero m)⟩
    | cons batch rest ih =>
      intro got hgot
      rw [gather]
      split
      · next henough =>
        refine ⟨1, by simp, .inl henough, fun m hm => ?_⟩
        rw [Nat.lt_one_iff.1 hm]
        simpa using hgot
      · next hmore =>
        obtain ⟨n, heq, hn, hbefore⟩ := ih (got ++ batch) (Nat.lt_of_not_le hmore)
        refine ⟨n + 1, by rw [heq]; simp, hn.imp_right Nat.succ_le_succ, fun m hm => ?_⟩
        cases m with
        | zero => simpa using hgot
        | succ m => simpa using hbefore m (Nat.lt_of_succ_lt_succ hm)
  exact hgather batches [] hwanted

/-- **What is gathered is the shortest part.** -/
theorem shortest_iff {wanted : Nat} (hwanted : 0 < wanted) {batches : List (List α)} {part : List α} :
    Shortest wanted batches part ↔ part = gather wanted [] batches := by
  have hgather := shortest_gather hwanted batches
  constructor
  · exact fun h => h.unique hgather
  · rintro rfl
    exact hgather

/-- As much is gathered as there is, or at least as much as is wanted. -/
theorem Shortest.min_length {wanted : Nat} {batches : List (List α)} {part : List α} (h : Shortest wanted batches part) :
    min wanted part.length = min wanted batches.flatten.length := by
  obtain ⟨n, rfl, hn, -⟩ := h
  have hfirst : (batches.take n).flatten.length ≤ batches.flatten.length :=
    ((List.take_sublist n batches).flatten).length_le
  rcases hn with henough | hall
  · omega
  · rw [List.take_of_length_le hall]

theorem Shortest.mem {wanted : Nat} {batches : List (List α)} {part : List α} (h : Shortest wanted batches part) {a : α}
    (ha : a ∈ part) : a ∈ batches.flatten := by
  obtain ⟨n, rfl, -⟩ := h
  exact ((List.take_sublist n batches).flatten).subset ha

end Shortest

namespace Trie

/-- The places of the nodes of a subtree, each before those of its children, and these in the order of their characters.  A
child that does not stand behind its parent is left out. -/
def preorder (t : Trie) (place : Nat) : List Nat :=
  place :: (t.node place).children.values.flatMap fun child =>
    if _h : place < child ∧ child < t.nodes.size then t.preorder child else []
termination_by t.nodes.size - place
decreasing_by omega

variable {t : Trie}

theorem IsTree.preorder_eq (h : IsTree t.nodes) {place : Nat} (hplace : place < t.nodes.size) :
    t.preorder place = place :: (t.node place).children.values.flatMap t.preorder := by
  rw [preorder]
  congr 1
  refine List.flatMap_congr fun child hchild => ?_
  obtain ⟨c, hc⟩ := (mem_children_values hplace).1 hchild
  exact dif_pos (h.forward hc)

/-- **The stack holds what is left of the order:** what is visited are the first places of the subtrees on it. -/
theorem IsTree.visit_eq_take (h : IsTree t.nodes) (fuel : Nat) {stack : List Nat} (hstack : Stacked t.nodes stack) :
    t.visit fuel stack = (stack.flatMap t.preorder).take fuel := by
  induction fuel generalizing stack with
  | zero => rfl
  | succ fuel ih =>
    cases stack with
    | nil => rfl
    | cons place stack =>
      rw [visit, ih (h.stacked_next hstack), List.flatMap_cons, h.preorder_eq (hstack.bounded place List.mem_cons_self),
        List.flatMap_append, List.cons_append, List.take_succ_cons]

theorem IsTree.visit_eq_preorder (h : IsTree t.nodes) {place : Nat} (hplace : place < t.nodes.size) :
    t.visit t.nodes.size [place] = t.preorder place := by
  have hstack := stacked_of_lt hplace
  have htake := fun fuel => h.visit_eq_take fuel hstack
  simp only [List.flatMap_singleton] at htake
  -- fuel for the whole subtree visits it all, and that is no more than there are nodes
  have hall : t.visit (t.preorder place).length [place] = t.preorder place := by rw [htake, List.take_length]
  have hlength := (h.visit_subperm_range (t.preorder place).length hstack).length_le
  rw [hall, List.length_range] at hlength
  rw [htake, List.take_of_length_le hlength]

/-- The matches in a subtree, node by node. -/
def batches (t : Trie) (place : Nat) : List (List Match) := (t.preorder place).map fun p => (t.node p).matches

/-- **What a search meets is the shortest part of the matches in the subtree.** -/
theorem IsTree.shortest_collect (h : IsTree t.nodes) {place : Nat} (hplace : place < t.nodes.size) {limit : Nat}
    (hlimit : 0 < limit) : Shortest limit (t.batches place) (t.collect limit t.nodes.size [place] []) := by
  rw [shortest_iff hlimit, collect_eq_gather, h.visit_eq_preorder hplace, batches]

/-- **A search with a limit loses nothing that it should find.**  It sorts the shortest part of the matches that comes to the
limit.  If it has an answer, it finds as many entries as stand below its prefix, or as the limit allows, and they are the first
ones of that part in some order.  It has an answer unless the part has more than 20 matches and the score of one of them is no
number.  And if every score there is a number, the order is by falling score and maybe by falling frequency of the node, and
matches that are level keep the order of the nodes. -/
theorem search?_eq_of_shortest (ht : Built t) {start : String} (hstart : start ≠ "") {place : Nat}
    (hplace : t.find? start = some place) {limit : Nat} (hlimit : 1 ≤ limit) (tieBreak : TieBreak) :
    ∃ part, Shortest limit (t.batches place) part ∧
      (∀ found, t.search? start limit tieBreak = some found →
        found.length = min limit (t.batches place).flatten.length ∧
          ∃ sorted : List Match, sorted.Perm part ∧ found = (sorted.take limit).map Match.entry) ∧
      (t.search? start limit tieBreak = none → 20 < part.length ∧ ∃ m ∈ part, m.entry.score = .nan) ∧
      ((∀ m ∈ part, m.entry.score ≠ .nan) →
        t.search? start limit tieBreak =
          some (((part.mergeSort (Match.ranks tieBreak)).take limit).map Match.entry)) := by
  have htree := ht.isTree
  have hlt : place < t.nodes.size := by
    rw [find?_eq_walk] at hplace
    exact htree.walk_lt htree.rooted hplace
  have hshortest := htree.shortest_collect hlt hlimit
  rw [search?_eq (by simpa using hstart) hplace hlimit]
  refine ⟨_, hshortest, fun found h => ?_, fun h => ?_, fun hnumbers => ?_⟩
  · obtain ⟨sorted, hsorted, rfl⟩ := Option.map_eq_some_iff.1 h
    have hperm := Match.perm_sort? hsorted
    refine ⟨?_, sorted, hperm, rfl⟩
    rw [List.length_map, List.length_take, hperm.length_eq, hshortest.min_length]
  · exact Match.exists_nan_of_sort?_eq_none (Option.map_eq_none_iff.1 h)
  · rw [Match.sort?_of_numbers hnumbers, Option.map_some, Match.stableSort_eq_mergeSort hnumbers]

/-- Two entries of one text, and one of a longer text. -/
def oneLonger : Trie :=
  (((∅ : Trie).insert "ab" { id := "1", text := "ab", category := "item" }).insert "abc"
    { id := "2", text := "abc", category := "item" }).insert "Ab" { id := "3", text := "Ab", category := "item" }

theorem search?_oneLonger :
    ∃ found, oneLonger.search? "a" 1 .resultNode = some found ∧ found.length = 1 ∧
      ∃ part, Shortest 1 (oneLonger.batches 1) part ∧
        found = ((part.mergeSort (Match.ranks .resultNode)).take 1).map Match.entry := by
  have hbuilt : Built oneLonger := ((Built.empty.insert _ _).insert _ _).insert _ _
  have hfind : oneLonger.find? "a" = some 1 := by decide +kernel
  have hbatches : oneLonger.batches 1 =
      (oneLonger.visit oneLonger.nodes.size [1]).map fun p => (oneLonger.node p).matches := by
    rw [batches, hbuilt.isTree.visit_eq_preorder (by decide +kernel)]
  obtain ⟨part, hpart, hfound, -, hnumbers⟩ :=
    search?_eq_of_shortest hbuilt (by decide) hfind (by decide : 1 ≤ 1) .resultNode
  have hscores : ∀ m ∈ (oneLonger.batches 1).flatten, m.entry.score ≠ .nan := by
    rw [hbatches]
    decide +kernel
  have hanswer := hnumbers fun m hm => hscores m (hpart.mem hm)
  refine ⟨_, hanswer, (hfound _ hanswer).1.trans ?_, part, hpart, rfl⟩
  rw [hbatches]
  decide +kernel

theorem Built.ofInserts (inserts : List (String × Entry)) : Built (Trie.ofInserts inserts) := by
  induction inserts using List.reverseRecOn with
  | nil => exact .empty
  | append_singleton inserts x ih =>
    rw [Trie.ofInserts, List.foldl_append]
    exact ih.insert x.1 x.2

/-- 21 entries of one text, one of which has a score that is no number, are not found. -/
theorem search?_unordered_eq_none :
    Built (ofInserts (Entry.unordered.map fun e => ("ab", e))) ∧
      (ofInserts (Entry.unordered.map fun e => ("ab", e))).find? "ab" = some 2 ∧
      ((ofInserts (Entry.unordered.map fun e => ("ab", e))).batches 2).flatten.length = 21 ∧
      (ofInserts (Entry.unordered.map fun e => ("ab", e))).search? "ab" 21 .queriedNode = none := by
  have hbuilt := Built.ofInserts (Entry.unordered.map fun e => ("ab", e))
  refine ⟨hbuilt, by decide +kernel, ?_, by decide +kernel⟩
  rw [batches, ← hbuilt.isTree.visit_eq_preorder (by decide +kernel)]
  decide +kernel

end Trie
end Suggest
