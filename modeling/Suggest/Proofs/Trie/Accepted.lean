/-
# Which lists of nodes are tries

Nodes from outside are checked one by one: a child must stand behind its parent and in the list, no node may be a child twice,
and every node but the root must be one.  What is checked in this way is that the nodes are a single tree: from the first node
there is exactly one path to each other one (`SingleTree`, `isTree_iff`).

A trie that comes of such nodes, or of none, by insertions (`Built`) is a tree as well, so its own nodes are accepted again.
And a walk over a tree with a stack never comes to a place where no node stands, and comes to an end (`Finishes`): what is below
the stack gets less with every visit (`IsTree.below_next_iff`), so as much fuel as there are nodes is enough
(`IsTree.finishes_iff`).
-/

import Suggest.Proofs.Trie.Search

namespace Suggest
namespace Trie

/-- Whether nodes are a single tree: there is a first one, every child stands behind its parent and in the list, and to every
other node there is one path from the first, and only one. -/
structure SingleTree (nodes : Array Node) : Prop where
  rooted : 0 < nodes.size
  forward : ∀ {p c k}, child? nodes p c = some k → p < k ∧ k < nodes.size
  path : ∀ {k}, 0 < k → k < nodes.size → ∃! cs, walk nodes 0 cs = some k

/-- **Having one parent each is having one path each.** -/
theorem isTree_iff {nodes : Array Node} : IsTree nodes ↔ SingleTree nodes := by
  constructor
  · intro h
    refine ⟨h.rooted, h.forward, fun _ hk => ?_⟩
    obtain ⟨cs, hcs⟩ := h.exists_path hk
    exact ⟨cs, hcs, fun ds hds => h.path_unique hds hcs⟩
  · intro h
    have hpath : ∀ {p c k}, child? nodes p c = some k → ∃ cs, walk nodes 0 cs = some p ∧ walk nodes 0 (cs ++ [c]) = some k := by
      intro p c k hk
      obtain ⟨cs, hcs⟩ : ∃ cs, walk nodes 0 cs = some p := by
        rcases Nat.eq_zero_or_pos p with rfl | hpos
        · exact ⟨[], rfl⟩
        · exact (h.path hpos (lt_size_of_child? hk)).exists
      exact ⟨cs, hcs, walk_concat_eq_some_iff.2 ⟨p, hcs, hk⟩⟩
    refine ⟨h.rooted, h.forward, ?_, ?_⟩
    · intro p c q d k hp hq
      obtain ⟨cs, hcs, hp'⟩ := hpath hp
      obtain ⟨ds, hds, hq'⟩ := hpath hq
      obtain ⟨hlow, hhigh⟩ := h.forward hp
      have hsame := (h.path (Nat.lt_of_le_of_lt (Nat.zero_le p) hlow) hhigh).unique hp' hq'
      obtain ⟨rfl, hlast⟩ := List.append_inj' hsame rfl
      rw [hcs] at hds
      exact ⟨Option.some.inj hds, (List.cons.inj hlast).1⟩
    · -- a path that leads behind the root has a last step
      intro k hpos hk
      obtain ⟨cs, hcs⟩ := (h.path hpos hk).exists
      cases cs using List.reverseRecOn with
      | nil =>
        rw [walk_nil, Option.some.injEq] at hcs
        omega
      | append_singleton cs c =>
        obtain ⟨p, -, hc⟩ := walk_concat_eq_some_iff.1 hcs
        exact ⟨p, c, hc⟩

theorem exists_ofNodes_iff {nodes : Array Node} : (∃ t, ofNodes nodes = .ok t) ↔ SingleTree nodes := by
  rw [← isTree_iff]
  constructor
  · rintro ⟨t, ht⟩
    exact isTree_of_ofNodes ht
  · intro h
    exact ⟨⟨nodes, h.rooted⟩, IsTree.ofNodes_eq_ok (t := ⟨nodes, h.rooted⟩) h⟩

/-- Whether a trie comes of nodes that are accepted, or of none, by insertions. -/
inductive Built : Trie → Prop where
  | empty : Built ∅
  | ofNodes {nodes : Array Node} {t : Trie} (h : ofNodes nodes = .ok t) : Built t
  | insert {t : Trie} (h : Built t) (text : String) (e : Entry) : Built (t.insert text e)

theorem Built.isTree {t : Trie} (h : Built t) : IsTree t.nodes := by
  induction h with
  | empty => exact isTree_empty
  | ofNodes h => exact nodes_of_ofNodes h ▸ isTree_of_ofNodes h
  | insert _ text e ih => exact ih.insert text e

/-! ### Walks -/

section Walks

variable {σ : Type} (t : Trie) (turn : List Nat → List Nat) (step : σ → Node → σ) (enough : σ → Bool)

/-- Whether a walk over the nodes comes to an end, and with what result.  It takes the place on top of the stack, where a node
must stand, and visits the node.  If that is not enough, the children of the node come on top of the stack, in some order. -/
inductive Finishes : List Nat → σ → σ → Prop where
  | done (s : σ) : Finishes [] s s
  | stop {place : Nat} {stack : List Nat} {s : σ} {n : Node} (hn : t.nodes[place]? = some n)
      (h : enough (step s n) = true) : Finishes (place :: stack) s (step s n)
  | next {place : Nat} {stack : List Nat} {s s' : σ} {n : Node} (hn : t.nodes[place]? = some n)
      (h : enough (step s n) = false) (hrest : Finishes (turn n.children.values ++ stack) (step s n) s') :
      Finishes (place :: stack) s s'

/-- The result of a walk that visits as many nodes as there is fuel, at most. -/
def sweep : Nat → List Nat → σ → σ
  | 0, _, s => s
  | _, [], s => s
  | fuel + 1, place :: stack, s =>
    if enough (step s (t.node place)) then step s (t.node place)
    else sweep fuel (turn (t.node place).children.values ++ stack) (step s (t.node place))

variable {t turn step enough}

/-- A walk has one result. -/
theorem Finishes.unique {stack : List Nat} {s a b : σ} (ha : Finishes t turn step enough stack s a)
    (hb : Finishes t turn step enough stack s b) : a = b := by
  induction ha with
  | done => cases hb; rfl
  | stop hn h =>
    cases hb with
    | stop hn' => rw [Option.some.inj (hn.symm.trans hn')]
    | next hn' h' =>
      rw [Option.some.inj (hn.symm.trans hn'), h'] at h
      cases h
  | next hn h _ ih =>
    cases hb with
    | stop hn' h' =>
      rw [Option.some.inj (hn.symm.trans hn'), h'] at h
      cases h
    | next hn' _ hrest =>
      obtain rfl := Option.some.inj (hn.symm.trans hn')
      exact ih hrest

variable (hturn : ∀ places, (turn places).Perm places)

include hturn in
/-- The stack after a visit, with the children in any order. -/
theorem IsTree.stacked_turn (h : IsTree t.nodes) {place : Nat} {stack : List Nat}
    (hstack : Stacked t.nodes (place :: stack)) : Stacked t.nodes (turn (t.node place).children.values ++ stack) :=
  (h.stacked_next hstack).perm ((hturn _).symm.append_right stack)

include hturn in
theorem IsTree.below_turn_iff (h : IsTree t.nodes) {place : Nat} {stack : List Nat}
    (hstack : Stacked t.nodes (place :: stack)) {k : Nat} :
    (∃ p ∈ turn (t.node place).children.values ++ stack, Below t.nodes p k) ↔
      k ≠ place ∧ ∃ p ∈ place :: stack, Below t.nodes p k := by
  simp only [← h.below_next_iff hstack, ((hturn (t.node place).children.values).append_right stack).mem_iff]

include hturn in
/-- If the fuel is enough for all that is below the stack, the walk comes to an end with it. -/
theorem IsTree.finishes_sweep (h : IsTree t.nodes) (fuel : Nat) {stack : List Nat} (hstack : Stacked t.nodes stack)
    (hfuel : ∀ places : List Nat, places.Nodup → (∀ k ∈ places, ∃ p ∈ stack, Below t.nodes p k) → places.length ≤ fuel)
    (s : σ) : Finishes t turn step enough stack s (t.sweep turn step enough fuel stack s) := by
  induction fuel generalizing stack s with
  | zero =>
    cases stack with
    | nil => exact .done s
    | cons place stack =>
      exact absurd (hfuel [place] (List.nodup_singleton place) (by simpa using .inl (.refl _ place))) (by simp)
  | succ fuel ih =>
    cases stack with
    | nil => exact .done s
    | cons place stack =>
      have hplace := hstack.bounded place List.mem_cons_self
      rw [sweep]
      split
      · next henough => exact .stop (getElem?_eq_node hplace) henough
      · next hmore =>
        refine .next (getElem?_eq_node hplace) (by simpa using hmore) (ih (h.stacked_turn hturn hstack) ?_ _)
        -- the place that has been visited is not below the new stack, so there is less below it
        intro places hdistinct hbelow
        have hnext := fun k hk => (h.below_turn_iff hturn hstack).1 (hbelow k hk)
        refine Nat.le_of_succ_le_succ (hfuel (place :: places) (List.nodup_cons.2 ⟨fun hk => ?_, hdistinct⟩) ?_)
        · exact (hnext place hk).1 rfl
        · exact List.forall_mem_cons.2 ⟨⟨place, List.mem_cons_self, .refl _ place⟩, fun k hk => (hnext k hk).2⟩

include hturn in
/-- **A walk over a tree comes to an end,** without coming to a place where no node stands, and fuel for all nodes is enough. -/
theorem IsTree.finishes_iff (h : IsTree t.nodes) {place : Nat} (hplace : place < t.nodes.size) {s s' : σ} :
    Finishes t turn step enough [place] s s' ↔ s' = t.sweep turn step enough t.nodes.size [place] s := by
  have hfinishes : Finishes t turn step enough [place] s (t.sweep turn step enough t.nodes.size [place] s) := by
    refine h.finishes_sweep hturn _ (stacked_of_lt hplace) (fun places hdistinct hbelow => ?_) s
    have hsubset : places ⊆ List.range t.nodes.size := fun k hk => by
      obtain ⟨p, hp, hk⟩ := hbelow k hk
      exact List.mem_range.2 (h.below_lt (List.mem_singleton.1 hp ▸ hplace) hk)
    simpa using (List.subperm_of_subset hdistinct hsubset).length_le
  constructor
  · exact fun hs' => hs'.unique hfinishes
  · rintro rfl
    exact hfinishes

end Walks

/-- What a search does at a node. -/
def meet (met : List Match) (n : Node) : List Match := met ++ n.matches

/-- What counting does at a node. -/
def Counts.add (counts : Counts) (n : Node) : Counts := ⟨counts.total + 1, counts.terminal + n.terminal.toNat⟩

theorem collect_eq_sweep (t : Trie) (limit fuel : Nat) (stack : List Nat) (met : List Match) :
    t.collect limit fuel stack met = t.sweep id meet (fun met => limit ≤ met.length) fuel stack met := by
  induction fuel generalizing stack met with
  | zero => rfl
  | succ fuel ih =>
    cases stack with
    | nil => rfl
    | cons place stack =>
      rw [collect, sweep, ih]
      by_cases henough : limit ≤ (meet met (t.node place)).length
      · exact (if_pos henough).trans (if_pos (decide_eq_true henough)).symm
      · exact (if_neg henough).trans (if_neg (by simpa using henough)).symm

theorem countFrom_eq_sweep (t : Trie) (fuel : Nat) (stack : List Nat) (counts : Counts) :
    t.countFrom fuel stack counts = t.sweep id Counts.add (fun _ => false) fuel stack counts := by
  induction fuel generalizing stack counts with
  | zero => rfl
  | succ fuel ih =>
    cases stack with
    | nil => rfl
    | cons place stack =>
      rw [countFrom, ih, sweep, if_neg Bool.false_ne_true]
      rfl

variable {t : Trie} {turn : List Nat → List Nat}

/-- What is below the stack is counted, each place once. -/
theorem IsTree.exists_of_finishes_add (h : IsTree t.nodes) (hturn : ∀ places, (turn places).Perm places) {stack : List Nat}
    (hstack : Stacked t.nodes stack) {s s' : Counts} (hs : Finishes t turn Counts.add (fun _ => false) stack s s') :
    ∃ visited : List Nat, visited.Nodup ∧ (∀ k, k ∈ visited ↔ ∃ p ∈ stack, Below t.nodes p k) ∧
      s' = ⟨s.total + visited.length, s.terminal + visited.countP fun p => (t.node p).terminal⟩ := by
  induction hs with
  | done s => exact ⟨[], List.nodup_nil, by simp, rfl⟩
  | stop hn h => cases h
  | @next place stack s s' n hn _ _ ih =>
    have hplace := hstack.bounded place List.mem_cons_self
    obtain rfl : n = t.node place := Option.some.inj (hn.symm.trans (getElem?_eq_node hplace))
    obtain ⟨visited, hdistinct, hmem, rfl⟩ := ih (h.stacked_turn hturn hstack)
    have hrest := fun k => (hmem k).trans (h.below_turn_iff hturn hstack)
    refine ⟨place :: visited, List.nodup_cons.2 ⟨fun hk => ((hrest place).1 hk).1 rfl, hdistinct⟩, fun k => ?_, ?_⟩
    · rw [List.mem_cons, hrest]
      by_cases heq : k = place
      · exact iff_of_true (.inl heq) ⟨place, List.mem_cons_self, heq ▸ .refl _ k⟩
      · rw [or_iff_right heq, and_iff_right heq]
    · rw [List.length_cons, List.countP_cons]
      cases hterminal : (t.node place).terminal <;> simp [Counts.add, hterminal] <;> omega

/-- **Counting ends with all nodes of a tree,** in whichever order children are visited. -/
theorem IsTree.finishes_add_iff (h : IsTree t.nodes) (hturn : ∀ places, (turn places).Perm places) {counts : Counts} :
    Finishes t turn Counts.add (fun _ => false) [0] ⟨0, 0⟩ counts ↔
      counts = ⟨t.nodes.size, t.nodes.toList.countP Node.terminal⟩ := by
  have hcounts : ∀ counts, Finishes t turn Counts.add (fun _ => false) [0] ⟨0, 0⟩ counts →
      counts = ⟨t.nodes.size, t.nodes.toList.countP Node.terminal⟩ := by
    intro counts hcounts
    obtain ⟨visited, hdistinct, hmem, rfl⟩ := h.exists_of_finishes_add hturn (stacked_of_lt h.rooted) hcounts
    have hperm : visited.Perm (List.range t.nodes.size) := by
      refine (List.perm_ext_iff_of_nodup hdistinct List.nodup_range).2 fun k => ?_
      rw [hmem, List.mem_range]
      constructor
      · rintro ⟨p, hp, hk⟩
        exact h.below_lt (List.mem_singleton.1 hp ▸ h.rooted) hk
      · intro hk
        exact ⟨0, List.mem_singleton_self 0, h.exists_path hk⟩
    rw [hperm.length_eq, hperm.countP_eq, List.length_range, toList_nodes, List.countP_map, Nat.zero_add, Nat.zero_add]
    rfl
  refine ⟨hcounts counts, ?_⟩
  rintro rfl
  have hends : Finishes t turn Counts.add (fun _ => false) [0] ⟨0, 0⟩
      (t.sweep turn Counts.add (fun _ => false) t.nodes.size [0] ⟨0, 0⟩) := (h.finishes_iff hturn h.rooted).2 rfl
  exact hcounts _ hends ▸ hends

/-- **All nodes of a tree are counted.** -/
theorem IsTree.counts_eq (h : IsTree t.nodes) : t.counts = ⟨t.nodes.size, t.nodes.toList.countP Node.terminal⟩ := by
  rw [counts, countFrom_eq_sweep]
  exact (h.finishes_add_iff List.Perm.refl).1 ((h.finishes_iff List.Perm.refl h.rooted).2 rfl)

/-- **Accepted are exactly the single trees.**  Nodes that are accepted make up the trie as they are.  And of a trie that comes
of such nodes, or of none, by insertions, the nodes are accepted again and make up the same trie; a path from the root leads
to places only where nodes stand; a search from such a place, and counting from the root with the children in any order, come to
an end and to no other places, with the result that the trie gives; and what is counted are all nodes, and those of them where a
text ends. -/
theorem exists_ofNodes_iff_singleTree (nodes : Array Node) :
    ((∃ t, ofNodes nodes = .ok t) ↔ SingleTree nodes) ∧ (∀ t, ofNodes nodes = .ok t → t.nodes = nodes) ∧
    ∀ t, Built t →
      ofNodes t.nodes = .ok t ∧
      (∀ cs p, t.descend? 0 cs = some p → p < t.nodes.size) ∧
      (∀ p < t.nodes.size, ∀ limit met, Finishes t id meet (fun met => limit ≤ met.length) [p] [] met ↔
        met = t.collect limit t.nodes.size [p] []) ∧
      (∀ turn, (∀ places, (turn places).Perm places) → ∀ counts,
        Finishes t turn Counts.add (fun _ => false) [0] ⟨0, 0⟩ counts ↔ counts = t.counts) ∧
      t.counts = ⟨t.nodes.size, t.nodes.toList.countP Node.terminal⟩ := by
  refine ⟨exists_ofNodes_iff, fun t => nodes_of_ofNodes, fun t ht => ?_⟩
  have htree := ht.isTree
  refine ⟨htree.ofNodes_eq_ok, fun cs p hp => ?_, fun p hp limit met => ?_, fun turn hturn counts => ?_, htree.counts_eq⟩
  · rw [descend?_eq_walk] at hp
    exact htree.walk_lt htree.rooted hp
  · rw [collect_eq_sweep]
    exact htree.finishes_iff List.Perm.refl hp
  · rw [htree.counts_eq]
    exact htree.finishes_add_iff hturn

/-- A root with two children, at one of which a text ends. -/
def fork : Array Node :=
  #[{ children := .ofList [('a', 1), ('b', 2)] },
    { terminal := true, entries := [{ id := "1", text := "a", category := "item" }], frequency := 1 }, {}]

theorem exists_ofNodes_fork :
    SingleTree fork ∧ ∃ t, ofNodes fork = .ok t ∧
      ofNodes (t.insert "ab" { id := "2", text := "ab", category := "item" }).nodes =
        .ok (t.insert "ab" { id := "2", text := "ab", category := "item" }) ∧
      (t.insert "ab" { id := "2", text := "ab", category := "item" }).counts = ⟨4, 2⟩ := by
  have hfork : ofNodes fork = .ok ⟨fork, by decide⟩ := rfl
  obtain ⟨haccepted, -, hbuilt⟩ := exists_ofNodes_iff_singleTree fork
  obtain ⟨hagain, -, -, -, hcounts⟩ :=
    hbuilt _ (.insert (.ofNodes hfork) "ab" { id := "2", text := "ab", category := "item" })
  exact ⟨haccepted.1 ⟨_, hfork⟩, _, hfork, hagain, hcounts.trans (by decide +kernel)⟩

end Trie
end Suggest
