/-
# Paths in a trie

In a tree every place has a path from the root, and only one (`IsTree.exists_path`, `IsTree.path_unique`).  Insertion extends
the nodes along one path and changes nothing else (`Grows`), so what stands at the end of a path after an insertion is what
stood there before, marked with the new entry if the path is that of its text (`contentAt_insert`).  That makes a trie hold
under each text what the postings of an index hold under it (`entries_contentAt_ofInserts`).
-/

import Suggest.Proofs.Index.Postings
import Suggest.Proofs.Trie.Arena

namespace Suggest
namespace Trie

/-- The end of a path. -/
def walk (nodes : Array Node) (place : Nat) (cs : List Char) : Option Nat := cs.foldlM (child? nodes) place

theorem walk_nil (nodes : Array Node) (place : Nat) : walk nodes place [] = some place := rfl

theorem walk_cons (nodes : Array Node) (place : Nat) (c : Char) (cs : List Char) :
    walk nodes place (c :: cs) = (child? nodes place c).bind fun child => walk nodes child cs := rfl

theorem walk_append (nodes : Array Node) (place : Nat) (cs ds : List Char) :
    walk nodes place (cs ++ ds) = (walk nodes place cs).bind fun p => walk nodes p ds := by
  rw [walk, List.foldlM_append]
  rfl

theorem walk_concat_eq_some_iff {nodes : Array Node} {place k : Nat} {cs : List Char} {c : Char} :
    walk nodes place (cs ++ [c]) = some k ↔ ∃ p, walk nodes place cs = some p ∧ child? nodes p c = some k := by
  simp [walk_append, Option.bind_eq_some_iff, walk_cons, walk_nil]

/-- A path has the paths to its initial parts. -/
theorem exists_walk_of_prefix {nodes : Array Node} {place k : Nat} {cs ds : List Char} (h : cs <+: ds)
    (hk : walk nodes place ds = some k) : ∃ p, walk nodes place cs = some p := by
  obtain ⟨es, rfl⟩ := h
  rw [walk_append, Option.bind_eq_some_iff] at hk
  obtain ⟨p, hp, -⟩ := hk
  exact ⟨p, hp⟩

theorem descend?_eq_walk (t : Trie) (place : Nat) (cs : List Char) : t.descend? place cs = walk t.nodes place cs := by
  induction cs generalizing place with
  | nil => rfl
  | cons c rest ih =>
    rw [descend?, walk_cons]
    cases child? t.nodes place c with
    | none => rfl
    | some child => exact ih child

theorem find?_eq_walk (t : Trie) (text : String) : t.find? text = walk t.nodes 0 (Text.lower text).toList :=
  descend?_eq_walk t 0 _

theorem IsTree.walk_lt {nodes : Array Node} (h : IsTree nodes) {place k : Nat} (hplace : place < nodes.size)
    {cs : List Char} (hk : walk nodes place cs = some k) : k < nodes.size := by
  cases cs using List.reverseRecOn with
  | nil => cases hk; exact hplace
  | append_singleton cs c =>
    obtain ⟨p, -, hc⟩ := walk_concat_eq_some_iff.1 hk
    exact (h.forward hc).2

/-- **There is a path to every place.** -/
theorem IsTree.exists_path {nodes : Array Node} (h : IsTree nodes) {k : Nat} (hk : k < nodes.size) :
    ∃ cs, walk nodes 0 cs = some k := by
  induction k using Nat.strongRecOn with
  | _ k ih =>
    rcases Nat.eq_zero_or_pos k with rfl | hpos
    · exact ⟨[], rfl⟩
    · obtain ⟨p, c, hc⟩ := h.reached hpos hk
      have hp := (h.forward hc).1
      obtain ⟨cs, hcs⟩ := ih p hp (by omega)
      exact ⟨cs ++ [c], walk_concat_eq_some_iff.2 ⟨p, hcs, hc⟩⟩

/-- **There is no other path to it.** -/
theorem IsTree.path_unique {nodes : Array Node} (h : IsTree nodes) {k : Nat} {cs ds : List Char}
    (hcs : walk nodes 0 cs = some k) (hds : walk nodes 0 ds = some k) : cs = ds := by
  induction cs using List.reverseRecOn generalizing ds k with
  | nil =>
    cases hcs
    cases ds using List.reverseRecOn with
    | nil => rfl
    | append_singleton ds d =>
      obtain ⟨p, -, hd⟩ := walk_concat_eq_some_iff.1 hds
      exact absurd (h.forward hd).1 (Nat.not_lt_zero p)
  | append_singleton cs c ih =>
    obtain ⟨p, hp, hc⟩ := walk_concat_eq_some_iff.1 hcs
    cases ds using List.reverseRecOn with
    | nil =>
      cases hds
      exact absurd (h.forward hc).1 (Nat.not_lt_zero p)
    | append_singleton ds d =>
      obtain ⟨q, hq, hd⟩ := walk_concat_eq_some_iff.1 hds
      obtain ⟨rfl, rfl⟩ := h.unique hc hd
      rw [ih hp hq]

/-- Whether nodes come of others by more nodes, and by more children for those that are there. -/
structure Grows (nodes more : Array Node) : Prop where
  size : nodes.size ≤ more.size
  keeps : ∀ {p c k}, child? nodes p c = some k → child? more p c = some k
  old : ∀ {p c k}, child? more p c = some k → k < nodes.size → child? nodes p c = some k
  same : ∀ p, ∃ children, more.getD p {} = { nodes.getD p {} with children }

theorem Grows.trans {a b c : Array Node} (hab : Grows a b) (hbc : Grows b c) : Grows a c where
  size := Nat.le_trans hab.size hbc.size
  keeps hk := hbc.keeps (hab.keeps hk)
  old hk hlt := hab.old (hbc.old hk (Nat.lt_of_lt_of_le hlt hab.size)) hlt
  same p := by
    obtain ⟨children, hb⟩ := hab.same p
    obtain ⟨more, hc⟩ := hbc.same p
    exact ⟨more, by rw [hc, hb]⟩

theorem grows_extend {nodes : Array Node} {place : Nat} (h : place < nodes.size) (c : Char) :
    Grows nodes (extend nodes place c).1 where
  size := size_le_extend nodes place c
  keeps {p d k} hk := by
    rw [child?_extend h]
    split
    · next heq =>
      rw [heq.1, heq.2] at hk
      rcases extend_cases nodes place c with ⟨hold, -⟩ | ⟨hnone, -⟩
      · rw [← hold, hk]
      · rw [hnone] at hk
        cases hk
    · exact hk
  old {p d k} hk hlt := by
    rw [child?_extend h] at hk
    split at hk
    · next heq =>
      cases hk
      rcases extend_cases nodes place c with ⟨hold, -⟩ | ⟨-, hnew, -⟩
      · rw [heq.1, heq.2, hold]
      · omega
    · exact hk
  same p := by
    rw [extend]
    split
    · exact ⟨_, rfl⟩
    · simp only [Array.getD_eq_getD_getElem?, Array.getElem?_push, Array.size_modify, Array.getElem?_modify]
      by_cases hlast : p = nodes.size
      · rw [if_pos hlast, Array.getElem?_eq_none (Nat.le_of_eq hlast.symm)]
        exact ⟨∅, rfl⟩
      · rw [if_neg hlast]
        split
        · next heq =>
          subst heq
          rw [Array.getElem?_eq_getElem h]
          exact ⟨_, rfl⟩
        · exact ⟨_, rfl⟩

theorem Grows.refl (nodes : Array Node) : Grows nodes nodes := ⟨Nat.le_refl _, id, fun hk _ => hk, fun _ => ⟨_, rfl⟩⟩

theorem IsTree.grows_extendAll {nodes : Array Node} (h : IsTree nodes) {place : Nat} (hplace : place < nodes.size)
    (cs : List Char) : Grows nodes (Trie.extendAll nodes place cs).1 := by
  induction cs generalizing nodes place with
  | nil => exact .refl nodes
  | cons c rest ih =>
    exact (grows_extend hplace c).trans (ih (h.extend hplace c).1 (h.extend hplace c).2)

theorem Grows.walk {a b : Array Node} (h : Grows a b) {place k : Nat} {cs : List Char}
    (hk : walk a place cs = some k) : Trie.walk b place cs = some k := by
  induction cs generalizing place with
  | nil => exact hk
  | cons c rest ih =>
    rw [walk_cons, Option.bind_eq_some_iff] at hk ⊢
    obtain ⟨child, hc, hk⟩ := hk
    exact ⟨child, h.keeps hc, ih hk⟩

/-- A path to a place that was there before was there before. -/
theorem Grows.walk_of_lt {a b : Array Node} (h : Grows a b) (hb : IsTree b) {k : Nat} {cs : List Char}
    (hk : Trie.walk b 0 cs = some k) (hlt : k < a.size) : Trie.walk a 0 cs = some k := by
  induction cs using List.reverseRecOn generalizing k with
  | nil => exact hk
  | append_singleton cs c ih =>
    obtain ⟨p, hp, hc⟩ := walk_concat_eq_some_iff.1 hk
    have := (hb.forward hc).1
    exact walk_concat_eq_some_iff.2 ⟨p, ih hp (by omega), h.old hc hlt⟩

/-- The path along which nodes are extended is there afterwards. -/
theorem IsTree.walk_extendAll {nodes : Array Node} (h : IsTree nodes) {place : Nat} (hplace : place < nodes.size)
    (cs : List Char) :
    Trie.walk (Trie.extendAll nodes place cs).1 place cs = some (Trie.extendAll nodes place cs).2 := by
  induction cs generalizing nodes place with
  | nil => rfl
  | cons c rest ih =>
    have hextend := h.extend hplace c
    have hchild : child? (Trie.extend nodes place c).1 place c = some (Trie.extend nodes place c).2 := by
      rw [child?_extend hplace, if_pos ⟨rfl, rfl⟩]
    rw [walk_cons, Trie.extendAll, (hextend.1.grows_extendAll hextend.2 rest).keeps hchild]
    exact ih hextend.1 hextend.2

/-- A node without its children: what was inserted at it. -/
def Node.bare (n : Node) : Node := { n with children := ∅ }

/-- What was inserted at the end of a path. -/
def contentAt (nodes : Array Node) (cs : List Char) : Node :=
  ((walk nodes 0 cs).map fun p => (nodes.getD p {}).bare).getD {}

theorem contentAt_of_walk {nodes : Array Node} {cs : List Char} {p : Nat} (h : walk nodes 0 cs = some p) :
    contentAt nodes cs = (nodes.getD p {}).bare := by
  rw [contentAt, h]
  rfl

theorem contentAt_of_walk_none {nodes : Array Node} {cs : List Char} (h : walk nodes 0 cs = none) :
    contentAt nodes cs = {} := by
  rw [contentAt, h]
  rfl

/-- Where there is no node there is nothing. -/
theorem node_of_size_le {nodes : Array Node} {p : Nat} (h : nodes.size ≤ p) : nodes.getD p {} = {} := by
  rw [Array.getD_eq_getD_getElem?, Array.getElem?_eq_none h]
  rfl

/-- At the end of a path stands what stood there before the nodes were extended. -/
theorem Grows.contentAt {a b : Array Node} (h : Grows a b) (hb : IsTree b) (cs : List Char) :
    Trie.contentAt b cs = Trie.contentAt a cs := by
  have hsame : ∀ p, (b.getD p {}).bare = (a.getD p {}).bare := fun p => by
    obtain ⟨children, hp⟩ := h.same p
    rw [hp]
    rfl
  cases ha : Trie.walk a 0 cs with
  | some p => rw [contentAt_of_walk ha, contentAt_of_walk (h.walk ha), hsame]
  | none =>
    rw [contentAt_of_walk_none ha]
    cases hp : Trie.walk b 0 cs with
    | none => exact contentAt_of_walk_none hp
    | some p =>
      -- the path ends in a new node, which is empty
      have hnew : a.size ≤ p := Nat.le_of_not_lt fun hlt => by
        rw [h.walk_of_lt hb hp hlt] at ha
        cases ha
      rw [contentAt_of_walk hp, hsame, node_of_size_le hnew]
      rfl

theorem walk_modify {nodes : Array Node} {place : Nat} {f : Node → Node} (h : ∀ n, (f n).children = n.children)
    (start : Nat) (cs : List Char) : walk (nodes.modify place f) start cs = walk nodes start cs := by
  induction cs generalizing start with
  | nil => rfl
  | cons c rest ih => simp only [walk_cons, child?_modify h, ih]

theorem getD_modify {nodes : Array Node} {place : Nat} (h : place < nodes.size) (f : Node → Node) (p : Nat) :
    (nodes.modify place f).getD p {} = if p = place then f (nodes.getD p {}) else nodes.getD p {} := by
  simp only [Array.getD_eq_getD_getElem?, Array.getElem?_modify]
  by_cases hp : place = p
  · subst hp
    simp [h]
  · simp [hp, Ne.symm hp]

/-- **An insertion marks the end of the path of its text,** and changes nothing elsewhere. -/
theorem contentAt_insert {t : Trie} (h : IsTree t.nodes) (text : String) (e : Entry) (cs : List Char) :
    contentAt (t.insert text e).nodes cs =
      if cs = (Text.lower text).toList then (contentAt t.nodes cs).mark e else contentAt t.nodes cs := by
  have hextend := h.extendAll t.size_pos (Text.lower text).toList
  have hwalk := h.walk_extendAll t.size_pos (Text.lower text).toList
  have hold := (h.grows_extendAll t.size_pos (Text.lower text).toList).contentAt hextend.1
  rw [nodes_insert, ← hold]
  generalize extendAll t.nodes 0 (Text.lower text).toList = path at hextend hwalk
  obtain ⟨nodes, place⟩ := path
  have hchildren : ∀ n : Node, (n.mark e).children = n.children := fun _ => rfl
  cases hp : walk nodes 0 cs with
  | none =>
    have hne : cs ≠ (Text.lower text).toList := by
      rintro rfl
      rw [hp] at hwalk
      cases hwalk
    rw [if_neg hne, contentAt_of_walk_none hp, contentAt_of_walk_none (by rwa [walk_modify hchildren])]
  | some p =>
    rw [contentAt_of_walk hp, contentAt_of_walk (by rwa [walk_modify hchildren]), getD_modify hextend.2]
    by_cases hcs : cs = (Text.lower text).toList
    · subst hcs
      obtain rfl : p = place := Option.some.inj (hp.symm.trans hwalk)
      rw [if_pos rfl, if_pos rfl]
      rfl
    · have hplace : p ≠ place := by
        rintro rfl
        exact hcs (hextend.1.path_unique hp hwalk)
      rw [if_neg hplace, if_neg hcs]

theorem isTree_ofInserts (inserts : List (String × Entry)) : IsTree (Index.ofInserts inserts).trie.nodes := by
  induction inserts using List.reverseRecOn with
  | nil => exact isTree_empty
  | append_singleton inserts x ih =>
    rw [Index.ofInserts_concat]
    exact ih.insert x.1 x.2

/-- **The trie of an index holds under each text what its postings hold under it.** -/
theorem entries_contentAt_ofInserts (inserts : List (String × Entry)) (cs : List Char) :
    (contentAt (Index.ofInserts inserts).trie.nodes cs).entries =
      (Index.ofInserts inserts).texts.exact (String.ofList cs) := by
  induction inserts using List.reverseRecOn with
  | nil =>
    cases cs with
    | nil => rfl
    | cons c rest =>
      refine congrArg Node.entries (contentAt_of_walk_none ?_)
      rw [walk_cons, show child? (Index.ofInserts []).trie.nodes 0 c = none from child?_empty 0 c]
      rfl
  | append_singleton inserts x ih =>
    rw [Index.ofInserts_concat, Index.insert, Postings.addText, contentAt_insert (isTree_ofInserts inserts)]
    by_cases hcs : cs = (Text.lower x.1).toList
    · rw [if_pos hcs, Node.mark, ih, hcs, String.ofList_toList, Postings.exact_add_self]
    · have hne : String.ofList cs ≠ Text.lower x.1 := fun heq => hcs (by rw [← heq, String.toList_ofList])
      rw [if_neg hcs, ih, Postings.exact_add_of_ne _ hne]

end Trie
end Suggest
