/-
# The nodes of a trie are a tree

A trie grows by one node at a time, which becomes the child of a node that is there (`child?_extend`).  So a child stands
behind its parent, no two nodes share a child, and every node but the root is one (`IsTree`).  Insertion keeps that
(`IsTree.insert`), and it is just what is checked of nodes that come from outside (`IsTree.ofNodes_eq_ok`, `isTree_of_ofNodes`).
-/

import Suggest.Proofs.Outcome
import Suggest.Proofs.SortedMap
import Suggest.Trie.Tree

namespace Suggest
namespace Trie

/-- Whether nodes are a single tree with the first of them as its root and every child behind its parent. -/
structure IsTree (nodes : Array Node) : Prop where
  rooted : 0 < nodes.size
  forward : ∀ {p c k}, child? nodes p c = some k → p < k ∧ k < nodes.size
  unique : ∀ {p c q d k}, child? nodes p c = some k → child? nodes q d = some k → p = q ∧ c = d
  reached : ∀ {k}, 0 < k → k < nodes.size → ∃ p c, child? nodes p c = some k

theorem child?_eq_some_iff {nodes : Array Node} {p k : Nat} {c : Char} :
    child? nodes p c = some k ↔ ∃ n, nodes[p]? = some n ∧ n.children.get? c = some k := by
  simp [child?, Option.bind_eq_some_iff]

theorem lt_size_of_child? {nodes : Array Node} {p k : Nat} {c : Char} (h : child? nodes p c = some k) : p < nodes.size := by
  obtain ⟨n, hn, -⟩ := child?_eq_some_iff.1 h
  exact (Array.getElem?_eq_some_iff.1 hn).1

/-- A change that leaves the children of a node as they are changes no child. -/
theorem child?_modify {nodes : Array Node} {place : Nat} {f : Node → Node} (h : ∀ n, (f n).children = n.children)
    (p : Nat) (c : Char) : child? (nodes.modify place f) p c = child? nodes p c := by
  simp only [child?, Array.getElem?_modify]
  split
  · cases nodes[p]? <;> simp [h]
  · rfl

/-- **Extending nodes changes one child only,** and not even that if it is there. -/
theorem child?_extend {nodes : Array Node} {place : Nat} (h : place < nodes.size) (c : Char) (p : Nat) (d : Char) :
    child? (extend nodes place c).1 p d =
      if p = place ∧ d = c then some (extend nodes place c).2 else child? nodes p d := by
  rw [extend]
  split
  · next child hchild =>
    split
    · next heq => rw [heq.1, heq.2, hchild]
    · rfl
  · next hnone =>
    simp only [child?, Array.getElem?_push, Array.size_modify, Array.getElem?_modify]
    by_cases hlast : p = nodes.size
    · have hne : ¬(p = place ∧ d = c) := fun heq => by omega
      simp only [if_pos hlast, if_neg hne, Array.getElem?_eq_none (Nat.le_of_eq hlast.symm)]
      rfl
    · rw [if_neg hlast]
      by_cases hplace : place = p
      · subst hplace
        obtain ⟨n, hn⟩ : ∃ n, nodes[place]? = some n := ⟨_, Array.getElem?_eq_getElem h⟩
        rw [if_pos rfl, hn]
        by_cases hd : d = c
        · subst hd
          simp [SortedMap.insert]
        · simp [hd, SortedMap.insert, SortedMap.get?_alter_of_ne _ hd]
      · rw [if_neg hplace, if_neg fun heq => hplace heq.1.symm]

/-- The child that nodes are extended by is there, or it is the new node. -/
theorem extend_cases (nodes : Array Node) (place : Nat) (c : Char) :
    child? nodes place c = some (extend nodes place c).2 ∧ (extend nodes place c).1.size = nodes.size ∨
      child? nodes place c = none ∧ (extend nodes place c).2 = nodes.size ∧
        (extend nodes place c).1.size = nodes.size + 1 := by
  rw [extend]
  split
  · next child hchild => exact .inl ⟨hchild, rfl⟩
  · next hnone => exact .inr ⟨hnone, rfl, by simp⟩

/-- Nodes with the children of a tree are a tree. -/
theorem IsTree.congr {nodes others : Array Node} (h : IsTree nodes) (hsize : others.size = nodes.size)
    (hsame : ∀ p c, child? others p c = child? nodes p c) : IsTree others where
  rooted := hsize ▸ h.rooted
  forward hk := by rw [hsame] at hk; exact hsize ▸ h.forward hk
  unique hp hq := by rw [hsame] at hp hq; exact h.unique hp hq
  reached hpos hk := by
    rw [hsize] at hk
    simpa only [hsame] using h.reached hpos hk

/-- Nodes that have one new child more than a tree, behind all of its nodes, are a tree. -/
theorem IsTree.grow {nodes others : Array Node} (h : IsTree nodes) {place : Nat} (hplace : place < nodes.size) {c : Char}
    (hnone : child? nodes place c = none) (hsize : others.size = nodes.size + 1)
    (hchild : ∀ p d, child? others p d = if p = place ∧ d = c then some nodes.size else child? nodes p d) :
    IsTree others := by
  have hfresh : ∀ {p d}, child? nodes p d ≠ some nodes.size := fun hk => Nat.lt_irrefl _ (h.forward hk).2
  refine ⟨by omega, ?_, ?_, ?_⟩
  · intro p d k hk
    rw [hchild] at hk
    split at hk
    · next heq => cases hk; omega
    · have := h.forward hk
      omega
  · intro p d q e k hp hq
    rw [hchild] at hp hq
    split at hp
    · next hpd =>
      cases hp
      split at hq
      · next hqe => exact ⟨hpd.1.trans hqe.1.symm, hpd.2.trans hqe.2.symm⟩
      · exact absurd hq hfresh
    · split at hq
      · cases hq
        exact absurd hp hfresh
      · exact h.unique hp hq
  · intro k hpos hk
    by_cases hlast : k = nodes.size
    · exact ⟨place, c, by rw [hchild, if_pos ⟨rfl, rfl⟩, hlast]⟩
    · obtain ⟨p, d, hpd⟩ := h.reached hpos (by omega : k < nodes.size)
      refine ⟨p, d, ?_⟩
      rw [hchild, if_neg, hpd]
      rintro ⟨rfl, rfl⟩
      rw [hnone] at hpd
      cases hpd

/-- **Extending a tree makes a tree,** and the place where it is extended is in it. -/
theorem IsTree.extend {nodes : Array Node} (h : IsTree nodes) {place : Nat} (hplace : place < nodes.size) (c : Char) :
    IsTree (extend nodes place c).1 ∧ (Trie.extend nodes place c).2 < (Trie.extend nodes place c).1.size := by
  have hchild := child?_extend hplace c
  rcases extend_cases nodes place c with ⟨hold, hsize⟩ | ⟨hnone, hnew, hsize⟩
  · have hsame : ∀ p d, child? (Trie.extend nodes place c).1 p d = child? nodes p d := fun p d => by
      rw [hchild]
      split
      · next heq => rw [heq.1, heq.2, hold]
      · rfl
    exact ⟨h.congr hsize hsame, hsize ▸ (h.forward hold).2⟩
  · rw [hnew] at hchild
    exact ⟨h.grow hplace hnone hsize hchild, by omega⟩

theorem IsTree.extendAll {nodes : Array Node} (h : IsTree nodes) {place : Nat} (hplace : place < nodes.size)
    (cs : List Char) :
    IsTree (extendAll nodes place cs).1 ∧ (Trie.extendAll nodes place cs).2 < (Trie.extendAll nodes place cs).1.size := by
  induction cs generalizing nodes place with
  | nil => exact ⟨h, hplace⟩
  | cons c rest ih => exact ih (h.extend hplace c).1 (h.extend hplace c).2

/-- What is inserted at a node does not matter to the tree. -/
theorem IsTree.modify {nodes : Array Node} (h : IsTree nodes) (place : Nat) {f : Node → Node}
    (hf : ∀ n, (f n).children = n.children) : IsTree (nodes.modify place f) :=
  h.congr Array.size_modify (child?_modify hf)

theorem child?_empty (p : Nat) (c : Char) : child? (∅ : Trie).nodes p c = none := by
  change child? #[{}] p c = none
  cases p <;> simp [child?]

theorem isTree_empty : IsTree (∅ : Trie).nodes where
  rooted := by decide
  forward hk := by rw [child?_empty] at hk; cases hk
  unique hk := by rw [child?_empty] at hk; cases hk
  reached {k} hpos hk := by
    have hk : k < 1 := hk
    omega

theorem nodes_insert (t : Trie) (text : String) (e : Entry) :
    (t.insert text e).nodes =
      (extendAll t.nodes 0 (Text.lower text).toList).1.modify (extendAll t.nodes 0 (Text.lower text).toList).2
        fun n => n.mark e := by
  rw [insert]

/-- **Insertion makes a tree of a tree.** -/
theorem IsTree.insert {t : Trie} (h : IsTree t.nodes) (text : String) (e : Entry) : IsTree (t.insert text e).nodes := by
  rw [nodes_insert]
  exact (h.extendAll t.size_pos _).1.modify _ fun _ => rfl

/-! ### What is checked of nodes -/

theorem mem_values_iff {nodes : Array Node} {place : Nat} {n : Node} (hn : nodes[place]? = some n) {k : Nat} :
    k ∈ n.children.values ↔ ∃ c, child? nodes place c = some k := by
  simp only [SortedMap.values, List.mem_map, Prod.exists, child?_eq_some_iff, hn, Option.some.injEq, exists_eq_left',
    SortedMap.get?_eq_some_iff]
  constructor
  · rintro ⟨c, _, hc, rfl⟩
    exact ⟨c, hc⟩
  · rintro ⟨c, hc⟩
    exact ⟨c, k, hc, rfl⟩

theorem IsTree.nodup_values {nodes : Array Node} (h : IsTree nodes) {place : Nat} {n : Node}
    (hn : nodes[place]? = some n) : n.children.values.Nodup := by
  have hordered := n.children.ordered
  rw [List.pairwise_map] at hordered
  rw [SortedMap.values, List.Nodup, List.pairwise_map]
  refine hordered.imp_of_mem fun {a b} ha hb hlt heq => ?_
  have ha : child? nodes place a.1 = some a.2 := child?_eq_some_iff.2 ⟨n, hn, SortedMap.get?_eq_some_iff.2 ha⟩
  have hb : child? nodes place b.1 = some b.2 := child?_eq_some_iff.2 ⟨n, hn, SortedMap.get?_eq_some_iff.2 hb⟩
  rw [heq] at ha
  rw [(h.unique ha hb).2] at hlt
  exact Key.irrefl _ hlt

theorem getD_mark {marks : Array Bool} {child : Nat} (h : child < marks.size) (k : Nat) :
    (marks.setIfInBounds child true).getD k false = true ↔ marks.getD k false = true ∨ k = child := by
  rw [Array.getD_eq_getD_getElem?, Array.getElem?_setIfInBounds, Array.getD_eq_getD_getElem?]
  by_cases hk : child = k
  · subst hk
    simp [h]
  · simp [hk, Ne.symm hk]

/-- Children behind their parent that are not marked yet can be marked. -/
theorem markChildren_eq_ok (parent : Nat) {ks : List Nat} (marks : Array Bool) (hnodup : ks.Nodup)
    (hrange : ∀ k ∈ ks, parent < k ∧ k < marks.size) (hfresh : ∀ k ∈ ks, marks.getD k false = false) :
    ∃ marks', markChildren parent ks marks = .ok marks' ∧ marks'.size = marks.size ∧
      ∀ k, marks'.getD k false = true ↔ marks.getD k false = true ∨ k ∈ ks := by
  induction ks generalizing marks with
  | nil => exact ⟨marks, rfl, rfl, by simp⟩
  | cons child rest ih =>
    rw [List.nodup_cons] at hnodup
    obtain ⟨hlow, hhigh⟩ := hrange child (by simp)
    have hmark := getD_mark hhigh
    obtain ⟨marks', hok, hsize, hmarks'⟩ := ih (marks.setIfInBounds child true) hnodup.2
      (fun k hk => by simpa using hrange k (by simp [hk])) fun k hk => by
        rw [← Bool.not_eq_true, hmark, not_or, Bool.not_eq_true]
        exact ⟨hfresh k (by simp [hk]), fun heq => hnodup.1 (heq ▸ hk)⟩
    refine ⟨marks', ?_, by simpa using hsize, fun k => ?_⟩
    · rw [markChildren, if_neg (by simp; omega), hfresh child (by simp)]
      exact hok
    · rw [hmarks', hmark, List.mem_cons, or_assoc]

/-- Children that could be marked are behind their parent and were not marked. -/
theorem of_markChildren {parent : Nat} {ks : List Nat} {marks marks' : Array Bool}
    (h : markChildren parent ks marks = .ok marks') :
    ks.Nodup ∧ ∀ k ∈ ks, parent < k ∧ k < marks.size ∧ marks.getD k false = false := by
  induction ks generalizing marks with
  | nil => exact ⟨List.nodup_nil, fun _ hk => nomatch hk⟩
  | cons child rest ih =>
    rw [markChildren] at h
    split at h
    · cases h
    split at h
    · cases h
    · next hrange hfresh =>
      have hchild : parent < child ∧ child < marks.size := by
        simp only [Bool.or_eq_true, decide_eq_true_eq, not_or] at hrange
        omega
      obtain ⟨hnodup, hrest⟩ := ih h
      have hunmarked : ∀ k ∈ rest, k ≠ child ∧ marks.getD k false = false := fun k hk => by
        have hk := (hrest k hk).2.2
        rw [← Bool.not_eq_true, getD_mark hchild.2, not_or, Bool.not_eq_true] at hk
        exact ⟨hk.2, hk.1⟩
      refine ⟨List.nodup_cons.2 ⟨fun hmem => (hunmarked child hmem).1 rfl, hnodup⟩, fun k hk => ?_⟩
      rcases List.mem_cons.1 hk with rfl | hk
      · exact ⟨hchild.1, hchild.2, by rwa [Bool.not_eq_true] at hfresh⟩
      · obtain ⟨hlow, hhigh, -⟩ := hrest k hk
        exact ⟨hlow, by simpa using hhigh, (hunmarked k hk).2⟩

/-- Whether the children of the nodes in front of a place are marked, and only these, and are as those of a tree are. -/
structure Marked (nodes : Array Node) (place : Nat) (marks : Array Bool) : Prop where
  size : marks.size = nodes.size
  marked : ∀ k, marks.getD k false = true ↔ ∃ p < place, ∃ c, child? nodes p c = some k
  forward : ∀ {p c k}, p < place → child? nodes p c = some k → p < k ∧ k < nodes.size
  unique : ∀ {p c q d k}, p < place → q < place → child? nodes p c = some k → child? nodes q d = some k → p = q ∧ c = d

/-- Marking the children of one more node. -/
theorem Marked.next {nodes : Array Node} {place : Nat} {marks marks' : Array Bool} (h : Marked nodes place marks) {n : Node}
    (hn : nodes[place]? = some n) (hmark : markChildren place n.children.values marks = .ok marks') :
    Marked nodes (place + 1) marks' := by
  obtain ⟨hnodup, hchildren⟩ := of_markChildren hmark
  obtain ⟨marked, hok, hsize, hmarked⟩ := markChildren_eq_ok place marks hnodup
    (fun k hk => ⟨(hchildren k hk).1, (hchildren k hk).2.1⟩) fun k hk => (hchildren k hk).2.2
  obtain rfl : marked = marks' := Except.ok.inj (hok.symm.trans hmark)
  have hfresh : ∀ {p c d k}, p < place → child? nodes p c = some k → child? nodes place d ≠ some k := by
    intro p c d k hp hpk hk
    have hold := (h.marked k).2 ⟨p, hp, c, hpk⟩
    rw [(hchildren k ((mem_values_iff hn).2 ⟨d, hk⟩)).2.2] at hold
    cases hold
  refine ⟨hsize.trans h.size, fun k => ?_, ?_, ?_⟩
  · rw [hmarked, h.marked, mem_values_iff hn]
    constructor
    · rintro (⟨p, hp, hc⟩ | hc)
      · exact ⟨p, by omega, hc⟩
      · exact ⟨place, by omega, hc⟩
    · rintro ⟨p, hp, hc⟩
      rcases Nat.lt_succ_iff_lt_or_eq.1 hp with hp | rfl
      · exact .inl ⟨p, hp, hc⟩
      · exact .inr hc
  · intro p c k hp hk
    rcases Nat.lt_succ_iff_lt_or_eq.1 hp with hp | rfl
    · exact h.forward hp hk
    · obtain ⟨hlow, hhigh, -⟩ := hchildren k ((mem_values_iff hn).2 ⟨c, hk⟩)
      exact ⟨hlow, h.size ▸ hhigh⟩
  · intro p c q d k hp hq hpk hqk
    rcases Nat.lt_succ_iff_lt_or_eq.1 hp with hp | rfl <;> rcases Nat.lt_succ_iff_lt_or_eq.1 hq with hq | rfl
    · exact h.unique hp hq hpk hqk
    · exact absurd hqk (hfresh hp hpk)
    · exact absurd hpk (hfresh hq hqk)
    · obtain ⟨m, hm, hc⟩ := child?_eq_some_iff.1 hpk
      obtain ⟨m', hm', hd⟩ := child?_eq_some_iff.1 hqk
      cases hm.symm.trans hm'
      cases hm.symm.trans hn
      exact ⟨rfl, SortedMap.key_unique hnodup hc hd⟩

theorem marked_zero (nodes : Array Node) : Marked nodes 0 (Array.replicate nodes.size false) := by
  refine ⟨by simp, fun k => ?_, fun hp => absurd hp (Nat.not_lt_zero _), fun hp => absurd hp (Nat.not_lt_zero _)⟩
  rw [Array.getD_eq_getD_getElem?, Array.getElem?_replicate]
  split <;> simp

theorem of_drop_eq_cons {nodes : Array Node} {place : Nat} {n : Node} {rest : List Node}
    (h : nodes.toList.drop place = n :: rest) : nodes[place]? = some n ∧ nodes.toList.drop (place + 1) = rest := by
  constructor
  · have := congrArg (·[0]?) h
    simpa using this
  · rw [← List.drop_drop, h, List.drop_one, List.tail_cons]

theorem Marked.all {nodes : Array Node} {place : Nat} {marks marks' : Array Bool} (h : Marked nodes place marks)
    {ns : List Node} (hns : nodes.toList.drop place = ns) (hmark : markNodes place ns marks = .ok marks') :
    Marked nodes (place + ns.length) marks' := by
  induction ns generalizing place marks with
  | nil => cases hmark; exact h
  | cons n rest ih =>
    obtain ⟨hn, hrest⟩ := of_drop_eq_cons hns
    obtain ⟨marked, hmarked, hmark⟩ := bind_eq_ok.1 hmark
    rw [List.length_cons, Nat.add_comm rest.length, ← Nat.add_assoc]
    exact ih (h.next hn hmarked) hrest hmark

/-- What all nodes have as children is marked once they are through. -/
theorem marked_of_markNodes {nodes : Array Node} {marks : Array Bool}
    (h : markNodes 0 nodes.toList (Array.replicate nodes.size false) = .ok marks) : Marked nodes nodes.size marks := by
  have hall := (marked_zero nodes).all rfl h
  rwa [Nat.zero_add, List.length_drop, Array.length_toList, Nat.sub_zero] at hall

/-- The nodes of a tree from a place on can be marked, if those before it are. -/
theorem IsTree.markNodes_eq_ok {nodes : Array Node} (h : IsTree nodes) {place : Nat} {marks : Array Bool}
    (hmarks : Marked nodes place marks) {ns : List Node} (hns : nodes.toList.drop place = ns) :
    ∃ marks', markNodes place ns marks = .ok marks' := by
  induction ns generalizing place marks with
  | nil => exact ⟨marks, rfl⟩
  | cons n rest ih =>
    obtain ⟨hn, hrest⟩ := of_drop_eq_cons hns
    have hchild : ∀ k ∈ n.children.values, ∃ c, child? nodes place c = some k := fun k hk => (mem_values_iff hn).1 hk
    obtain ⟨marked, hmarked, -, -⟩ := markChildren_eq_ok place marks (h.nodup_values hn)
      (fun k hk => by
        obtain ⟨c, hc⟩ := hchild k hk
        rw [hmarks.size]
        exact h.forward hc)
      (fun k hk => by
        obtain ⟨c, hc⟩ := hchild k hk
        rw [← Bool.not_eq_true, hmarks.marked]
        rintro ⟨p, hp, d, hd⟩
        exact Nat.ne_of_lt hp (h.unique hd hc).1)
    obtain ⟨marks', hok⟩ := ih (hmarks.next hn hmarked) hrest
    exact ⟨marks', by rw [markNodes, hmarked]; exact hok⟩

theorem unmarked?_eq_none_iff {place : Nat} {marks : List Bool} : unmarked? place marks = none ↔ ∀ m ∈ marks, m = true := by
  induction marks generalizing place with
  | nil => simp [unmarked?]
  | cons m rest ih => cases m <;> simp [unmarked?, ih]

/-- Every place but the first is marked if none of them is found that is not. -/
theorem unmarked?_drop_eq_none_iff {marks : Array Bool} :
    unmarked? 1 (marks.toList.drop 1) = none ↔ ∀ k, 0 < k → k < marks.size → marks.getD k false = true := by
  have hget {k : Nat} (hk : k < marks.size) : marks.getD k false = marks[k] := by
    rw [Array.getD_eq_getD_getElem?, Array.getElem?_eq_getElem hk, Option.getD_some]
  rw [unmarked?_eq_none_iff]
  constructor
  · intro h k hpos hk
    rw [hget hk]
    refine h _ (List.mem_iff_getElem.2 ⟨k - 1, by simp; omega, ?_⟩)
    rw [List.getElem_drop, Array.getElem_toList]
    congr 1
    omega
  · intro h m hm
    obtain ⟨i, hi, rfl⟩ := List.mem_iff_getElem.1 hm
    rw [List.length_drop, Array.length_toList] at hi
    rw [List.getElem_drop, Array.getElem_toList, ← hget (by omega)]
    exact h _ (by omega) (by omega)

/-- **Nodes that are a tree make up a trie.** -/
theorem IsTree.ofNodes_eq_ok {t : Trie} (h : IsTree t.nodes) : ofNodes t.nodes = .ok t := by
  obtain ⟨marks, hok⟩ : ∃ marks, markNodes 0 t.nodes.toList (Array.replicate t.nodes.size false) = .ok marks :=
    h.markNodes_eq_ok (marked_zero t.nodes) rfl
  have hall := marked_of_markNodes hok
  have hnone : unmarked? 1 (marks.toList.drop 1) = none := by
    refine unmarked?_drop_eq_none_iff.2 fun k hpos hk => (hall.marked k).2 ?_
    obtain ⟨p, c, hc⟩ := h.reached hpos (hall.size ▸ hk)
    exact ⟨p, lt_size_of_child? hc, c, hc⟩
  rw [ofNodes, dif_pos t.size_pos, hok]
  simp only [bind, Except.bind, hnone]

/-- **Nodes that make up a trie are a tree.** -/
theorem isTree_of_ofNodes {nodes : Array Node} {t : Trie} (h : ofNodes nodes = .ok t) : IsTree nodes := by
  unfold ofNodes at h
  split at h
  · next hpos =>
    obtain ⟨marks, hmark, h⟩ := bind_eq_ok.1 h
    have hall := marked_of_markNodes hmark
    refine ⟨hpos, fun hk => hall.forward (lt_size_of_child? hk) hk,
      fun hp hq => hall.unique (lt_size_of_child? hp) (lt_size_of_child? hq) hp hq, fun {k} hk hsize => ?_⟩
    split at h
    · cases h
    · next hnone =>
      obtain ⟨p, -, c, hc⟩ := (hall.marked k).1 (unmarked?_drop_eq_none_iff.1 hnone k hk (hall.size ▸ hsize))
      exact ⟨p, c, hc⟩
  · cases h

end Trie
end Suggest
