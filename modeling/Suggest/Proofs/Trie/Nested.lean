/-
# Nested nodes as tries

A nested node is laid out node by node, and each node becomes the child of one that is there already.  A single step adds one
path and changes nothing at the ends of the others (`IsTree.link`).  So laying out children under a path puts what stands
inside them under that path and leaves everything else alone (`Planted`), if the children of one node have different
characters.  That makes the nodes a tree, whose paths are those into the nested node, with the same at their ends
(`Sorted.exists_toTrie`).
-/

import Suggest.Proofs.Trie.Numbering
import Suggest.Snapshot.Nested

namespace Suggest
namespace Trie

/-- A child that is not there yet is a new node. -/
theorem extend_of_child?_eq_none {nodes : Array Node} {place : Nat} {c : Char} (h : child? nodes place c = none) :
    (extend nodes place c).2 = nodes.size ∧ (extend nodes place c).1.size = nodes.size + 1 := by
  rcases extend_cases nodes place c with ⟨hold, -⟩ | ⟨-, hnew, hsize⟩
  · rw [h] at hold
    cases hold
  · exact ⟨hnew, hsize⟩

/-- **A new child adds one path,** to the new place, and changes no other. -/
theorem IsTree.walk_extend {nodes : Array Node} (h : IsTree nodes) {path : List Char} {place : Nat}
    (hpath : walk nodes 0 path = some place) {c : Char} (hnone : child? nodes place c = none) (ds : List Char) :
    walk (Trie.extend nodes place c).1 0 ds = if ds = path ++ [c] then some nodes.size else walk nodes 0 ds := by
  have hplace := h.walk_lt h.rooted hpath
  have hgrows := grows_extend hplace c
  obtain ⟨htree, -⟩ := h.extend hplace c
  obtain ⟨hnew, hsize⟩ := extend_of_child?_eq_none hnone
  have hend : walk (Trie.extend nodes place c).1 0 (path ++ [c]) = some nodes.size :=
    walk_concat_eq_some_iff.2 ⟨place, hgrows.walk hpath, by rw [child?_extend hplace, if_pos ⟨rfl, rfl⟩, hnew]⟩
  by_cases hds : ds = path ++ [c]
  · rw [if_pos hds, hds, hend]
  rw [if_neg hds]
  cases hk : walk (Trie.extend nodes place c).1 0 ds with
  | some k =>
    have hlt := htree.walk_lt htree.rooted hk
    have hold : k < nodes.size := by
      by_contra hge
      obtain rfl : k = nodes.size := by omega
      exact hds (htree.path_unique hk hend)
    exact (hgrows.walk_of_lt htree hk hold).symm
  | none =>
    cases hj : walk nodes 0 ds with
    | some j =>
      rw [hgrows.walk hj] at hk
      cases hk
    | none => rfl

/-- A path that goes on from one that is not there is not there. -/
theorem walk_eq_none_of_starts {nodes : Array Node} {place : Nat} {cs ds : List Char} (h : cs <+: ds)
    (hcs : walk nodes place cs = none) : walk nodes place ds = none := by
  cases hk : walk nodes place ds with
  | none => rfl
  | some k =>
    obtain ⟨p, hp⟩ := exists_walk_of_prefix h hk
    rw [hcs] at hp
    cases hp

theorem isTree_singleton {m : Node} (hm : m.children = ∅) : IsTree #[m] := by
  have hchild : ∀ p c, child? #[m] p c = child? (∅ : Trie).nodes p c := by
    intro p c
    rw [child?_empty]
    cases p <;> simp [child?, hm]
  exact isTree_empty.congr rfl hchild

namespace Nested

/-- The children of a nested node. -/
def children : Nested → List (Char × Nested)
  | .node children _ _ _ => children

/-- A nested node without its children. -/
def top : Nested → Node
  | .node _ terminal entries frequency => ⟨∅, terminal, entries, frequency⟩

/-- The nested node at the end of a path into another one. -/
def at? (n : Nested) : List Char → Option Nested
  | [] => some n
  | c :: rest => (n.children.lookup c).bind fun m => m.at? rest

/-- Whether the children of every node inside a nested node are in ascending order of their characters. -/
def Sorted (n : Nested) : Prop := ∀ cs m, n.at? cs = some m → (m.children.map Prod.fst).Pairwise (· < ·)

theorem Sorted.nodup {n : Nested} (h : n.Sorted) : (n.children.map Prod.fst).Nodup := by
  refine (h [] n rfl).imp fun {c d} hlt heq => ?_
  rw [heq] at hlt
  exact Key.irrefl d hlt

theorem Sorted.lookup_eq_some_iff {n : Nested} (h : n.Sorted) {c : Char} {m : Nested} :
    n.children.lookup c = some m ↔ (c, m) ∈ n.children :=
  SortedMap.get?_eq_some_iff (m := ⟨n.children, h [] n rfl⟩)

/-- Children in order, and in order inside, make a node that is so as a whole. -/
theorem sorted_of_children {n : Nested} (hordered : (n.children.map Prod.fst).Pairwise (· < ·))
    (hinside : ∀ b ∈ n.children, b.2.Sorted) : n.Sorted := by
  intro cs m hm
  cases cs with
  | nil =>
    cases hm
    exact hordered
  | cons c rest =>
    rw [at?, Option.bind_eq_some_iff] at hm
    obtain ⟨k, hk, hm⟩ := hm
    exact hinside (c, k) ((SortedMap.get?_eq_some_iff (m := ⟨n.children, hordered⟩)).1 hk) rest m hm

theorem Sorted.of_mem {n : Nested} (h : n.Sorted) {b : Char × Nested} (hb : b ∈ n.children) : b.2.Sorted := by
  intro cs m hm
  refine h (b.1 :: cs) m ?_
  rw [at?, h.lookup_eq_some_iff.2 hb]
  exact hm

/-- A node that is appended without children and linked is a new child, marked. -/
theorem link_push {nodes : Array Node} {place : Nat} (hplace : place < nodes.size) {c : Char}
    (hnone : child? nodes place c = none) {m : Node} (hm : m.children = ∅) :
    link (nodes.push m) (some (place, c)) =
      (extend nodes place c).1.modify nodes.size fun n => { m with children := n.children } := by
  have hbare : { m with children := ∅ } = m := by rw [← hm]
  rw [link, extend, hnone]
  refine Array.ext (by simp) fun i hi _ => ?_
  simp only [Array.getElem_modify, Array.getElem_push, Array.size_push, Nat.add_sub_cancel, Array.size_modify]
  by_cases hlast : i < nodes.size
  · have hne : ¬nodes.size = i := by omega
    simp [hlast, hne]
  · obtain rfl : i = nodes.size := by simp at hi; omega
    have hne : ¬place = nodes.size := by omega
    simp [hne, hbare]

/-- **A node that is linked adds one path,** with that node at its end. -/
theorem isTree_link {nodes : Array Node} (h : IsTree nodes) {path : List Char} {place : Nat}
    (hpath : walk nodes 0 path = some place) {c : Char} (hnone : walk nodes 0 (path ++ [c]) = none) {m : Node}
    (hm : m.children = ∅) :
    IsTree (link (nodes.push m) (some (place, c))) ∧
      (∀ ds, walk (link (nodes.push m) (some (place, c))) 0 ds =
        if ds = path ++ [c] then some nodes.size else walk nodes 0 ds) ∧
      ∀ ds, bareAt? (link (nodes.push m) (some (place, c))) ds =
        if ds = path ++ [c] then some m.bare else bareAt? nodes ds := by
  have hplace := h.walk_lt h.rooted hpath
  have hchild : child? nodes place c = none := by
    cases hk : child? nodes place c with
    | none => rfl
    | some k =>
      rw [walk_concat_eq_some_iff.2 ⟨place, hpath, hk⟩] at hnone
      cases hnone
  have hgrows := grows_extend hplace c
  have hsize : nodes.size < (extend nodes place c).1.size := by
    rw [(extend_of_child?_eq_none hchild).2]
    omega
  have hwalk : ∀ ds, walk (link (nodes.push m) (some (place, c))) 0 ds =
      if ds = path ++ [c] then some nodes.size else walk nodes 0 ds := by
    intro ds
    rw [link_push hplace hchild hm, walk_modify, h.walk_extend hpath hchild]
    exact fun _ => rfl
  refine ⟨?_, hwalk, fun ds => ?_⟩
  · rw [link_push hplace hchild hm]
    exact (h.extend hplace c).1.modify _ fun _ => rfl
  rw [bareAt?, hwalk, link_push hplace hchild hm]
  split
  · rw [Option.map_some, getD_modify hsize, if_pos rfl]
    rfl
  · rw [bareAt?]
    cases hk : walk nodes 0 ds with
    | none => rfl
    | some k =>
      have hne : k ≠ nodes.size := Nat.ne_of_lt (h.walk_lt h.rooted hk)
      obtain ⟨children, hsame⟩ := hgrows.same k
      rw [Option.map_some, Option.map_some, getD_modify hsize, if_neg hne, hsame]
      rfl

/-- Whether nodes come of others by children at the end of a path, with what is inside them at the paths below it, and
nothing else is different. -/
structure Planted (nodes more : Array Node) (path : List Char) (children : List (Char × Nested)) : Prop where
  tree : IsTree more
  inside : ∀ b ∈ children, ∀ cs, bareAt? more (path ++ b.1 :: cs) = (b.2.at? cs).map top
  walk_outside : ∀ ds, (∀ b ∈ children, ¬path ++ [b.1] <+: ds) → walk more 0 ds = walk nodes 0 ds
  bareAt?_outside : ∀ ds, (∀ b ∈ children, ¬path ++ [b.1] <+: ds) → bareAt? more ds = bareAt? nodes ds

variable {nodes more : Array Node} {path : List Char}

theorem not_concat_prefix_self (path : List Char) (c : Char) : ¬path ++ [c] <+: path := by
  intro h
  have := h.length_le
  rw [List.length_append, List.length_singleton] at this
  omega

theorem concat_prefix_iff {path : List Char} {c d : Char} {cs : List Char} : path ++ [c] <+: path ++ d :: cs ↔ c = d := by
  simp [List.prefix_append_right_inj, List.cons_prefix_cons]

/-- **With its children planted a node is there as a whole.** -/
theorem Planted.bareAt?_append {n : Nested} (h : Planted nodes more path n.children) (hn : n.Sorted)
    (htop : bareAt? nodes path = some n.top) (hnone : ∀ c, walk nodes 0 (path ++ [c]) = none) (cs : List Char) :
    bareAt? more (path ++ cs) = (n.at? cs).map top := by
  cases cs with
  | nil => rw [List.append_nil, h.bareAt?_outside path fun b _ => not_concat_prefix_self path b.1, htop, at?, Option.map_some]
  | cons c rest =>
    rw [at?]
    cases hm : n.children.lookup c with
    | some m => exact h.inside (c, m) (hn.lookup_eq_some_iff.1 hm) rest
    | none =>
      have hbelow : path ++ [c] <+: path ++ c :: rest := concat_prefix_iff.2 rfl
      rw [h.bareAt?_outside, bareAt?_eq_none_iff.2 (walk_eq_none_of_starts hbelow (hnone c))]
      · rfl
      · rintro b hb hstarts
        obtain rfl := concat_prefix_iff.1 hstarts
        rw [hn.lookup_eq_some_iff.2 hb] at hm
        cases hm

/-- Children that are planted one after the other. -/
theorem Planted.cons {base : Array Node} {b : Char × Nested} {rest : List (Char × Nested)}
    (hrest : Planted nodes base path rest) (hb : Planted base more path [b]) (hnew : b.1 ∉ rest.map Prod.fst) :
    Planted nodes more path (b :: rest) where
  tree := hb.tree
  inside := by
    intro d hd cs
    rcases List.mem_cons.1 hd with rfl | hold
    · exact hb.inside d (List.mem_singleton_self d) cs
    · rw [hb.bareAt?_outside, hrest.inside d hold cs]
      intro e he hstarts
      obtain rfl := List.mem_singleton.1 he
      have hsame : e.1 = d.1 := concat_prefix_iff.1 hstarts
      exact hnew (List.mem_map.2 ⟨d, hold, hsame.symm⟩)
  walk_outside ds hds := by
    rw [hb.walk_outside ds fun e he => hds e (List.mem_cons.2 (.inl (List.mem_singleton.1 he))),
      hrest.walk_outside ds fun e he => hds e (List.mem_cons_of_mem _ he)]
  bareAt?_outside ds hds := by
    rw [hb.bareAt?_outside ds fun e he => hds e (List.mem_cons.2 (.inl (List.mem_singleton.1 he))),
      hrest.bareAt?_outside ds fun e he => hds e (List.mem_cons_of_mem _ he)]

theorem starts_of_concat_starts {cs ds : List Char} {c : Char} (h : cs ++ [c] <+: ds) : cs <+: ds :=
  (List.prefix_append cs [c]).trans h

mutual

/-- **A nested node that is laid out is planted.** -/
theorem planted_layOut (n : Nested) (hn : n.Sorted) (nodes : Array Node) (h : IsTree nodes) (path : List Char) (place : Nat)
    (hpath : walk nodes 0 path = some place) (c : Char) (hnone : walk nodes 0 (path ++ [c]) = none) :
    Planted nodes (layOut nodes (some (place, c)) n) path [(c, n)] := by
  obtain ⟨children, terminal, entries, frequency⟩ := n
  obtain ⟨htree, hwalk, hbare⟩ := isTree_link h hpath hnone (m := ⟨∅, terminal, entries, frequency⟩) rfl
  have hbelow : ∀ d, walk (link (nodes.push ⟨∅, terminal, entries, frequency⟩) (some (place, c))) 0 (path ++ [c] ++ [d]) =
      none := by
    intro d
    rw [hwalk, if_neg (by simp), walk_eq_none_of_starts (List.prefix_append _ _) hnone]
  have hplanted := planted_layOutChildren children hn.nodup (fun b hb => hn.of_mem hb) _ htree (path ++ [c]) nodes.size
    (by rw [hwalk, if_pos rfl]) fun b _ => hbelow b.1
  have houtside : ∀ ds, (∀ b ∈ [(c, Nested.node children terminal entries frequency)], ¬path ++ [b.1] <+: ds) →
      ¬path ++ [c] <+: ds := fun ds hds => hds _ (List.mem_singleton_self _)
  refine ⟨hplanted.tree, fun b hb cs => ?_, fun ds hds => ?_, fun ds hds => ?_⟩
  · obtain rfl := List.mem_singleton.1 hb
    have hwhole := Planted.bareAt?_append (n := .node children terminal entries frequency) hplanted hn
      (by rw [hbare, if_pos rfl]; rfl) hbelow cs
    rwa [List.append_assoc] at hwhole
  · have hout := houtside ds hds
    rw [layOut, hplanted.walk_outside ds fun b _ hstarts => hout (starts_of_concat_starts hstarts), hwalk, if_neg]
    rintro rfl
    exact hout List.prefix_rfl
  · have hout := houtside ds hds
    rw [layOut, hplanted.bareAt?_outside ds fun b _ hstarts => hout (starts_of_concat_starts hstarts), hbare, if_neg]
    rintro rfl
    exact hout List.prefix_rfl

/-- Children that are laid out are planted. -/
theorem planted_layOutChildren (children : List (Char × Nested)) (hnodup : (children.map Prod.fst).Nodup)
    (hsorted : ∀ b ∈ children, b.2.Sorted) (nodes : Array Node) (h : IsTree nodes) (path : List Char) (place : Nat)
    (hpath : walk nodes 0 path = some place) (hnone : ∀ b ∈ children, walk nodes 0 (path ++ [b.1]) = none) :
    Planted nodes (layOutChildren nodes place children) path children := by
  match children with
  | [] => exact ⟨h, fun _ hb => absurd hb List.not_mem_nil, fun _ _ => rfl, fun _ _ => rfl⟩
  | (c, n) :: rest =>
    obtain ⟨hnew, hnodup⟩ := List.nodup_cons.1 hnodup
    have hrest := planted_layOutChildren rest hnodup (fun b hb => hsorted b (List.mem_cons_of_mem _ hb)) nodes h path place
      hpath fun b hb => hnone b (List.mem_cons_of_mem _ hb)
    refine hrest.cons (planted_layOut n (hsorted _ List.mem_cons_self) _ hrest.tree path place ?_ c ?_) hnew
    · rw [hrest.walk_outside path fun b _ => not_concat_prefix_self path b.1, hpath]
    · rw [hrest.walk_outside, hnone _ List.mem_cons_self]
      intro b hb hstarts
      have hsame : b.1 = c := concat_prefix_iff.1 hstarts
      exact hnew (List.mem_map.2 ⟨b, hb, hsame⟩)

end

mutual

/-- **There is one node for each node inside.** -/
theorem size_layOut (n : Nested) (nodes : Array Node) (parent : Option (Nat × Char)) :
    (layOut nodes parent n).size = nodes.size + n.size := by
  obtain ⟨children, terminal, entries, frequency⟩ := n
  have hlink : ∀ more : Array Node, (link more parent).size = more.size := by
    intro more
    cases parent with
    | none => rfl
    | some parent => exact Array.size_modify
  rw [layOut, size_layOutChildren children, hlink, Array.size_push, size]
  omega

theorem size_layOutChildren (children : List (Char × Nested)) (nodes : Array Node) (place : Nat) :
    (layOutChildren nodes place children).size = nodes.size + sizeOfChildren children := by
  match children with
  | [] => rfl
  | (c, n) :: rest =>
    rw [layOutChildren, size_layOut n, size_layOutChildren rest, sizeOfChildren]
    omega

end

/-- **A nested node is a trie,** with a node for each node inside, and with the same at the ends of the same paths. -/
theorem Sorted.exists_toTrie {n : Nested} (h : n.Sorted) :
    ∃ t, n.toTrie = .ok t ∧ IsTree t.nodes ∧ t.nodes.size = n.size ∧
      ∀ cs, bareAt? t.nodes cs = (n.at? cs).map top := by
  obtain ⟨children, terminal, entries, frequency⟩ := n
  have hroot : IsTree #[(⟨∅, terminal, entries, frequency⟩ : Node)] := isTree_singleton rfl
  have hnone : ∀ c, walk #[(⟨∅, terminal, entries, frequency⟩ : Node)] 0 ([] ++ [c]) = none := fun _ => rfl
  have hplanted := planted_layOutChildren children h.nodup (fun b hb => h.of_mem hb) _ hroot [] 0 rfl fun b _ => hnone b.1
  have hok := IsTree.ofNodes_eq_ok (t := ⟨_, hplanted.tree.rooted⟩) hplanted.tree
  refine ⟨_, hok, hplanted.tree, ?_, fun cs => ?_⟩
  · exact (size_layOut (.node children terminal entries frequency) #[] none).trans (Nat.zero_add _)
  · exact hplanted.bareAt?_append (n := .node children terminal entries frequency) h rfl hnone cs

end Nested
end Trie
end Suggest
