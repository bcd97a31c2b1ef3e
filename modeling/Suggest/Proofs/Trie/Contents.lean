/-
# What a trie of inserted entries holds

An insertion makes the path of its text, and no other (`exists_walk_insert_iff`), and marks the end of it
(`contentAt_insert`).  So the marks at the end of a path are the insertions under its text, in their order
(`contentAt_ofInserts`), and every part of a node can be read off them:

| part of the node | insertions under the text |
| --- | --- |
| `terminal` | whether there are any |
| `frequency` | how many there are, in a word of 64 bits |
| `entries` | the first of each key |

Since every node has a path, and only one, this says all that there is in the nodes (`content_ofInserts`).
-/

import Suggest.Proofs.Entry
import Suggest.Proofs.Trie.Paths

namespace Suggest
namespace Trie

/-! ### Paths -/

/-- A path that is there after nodes are extended was there, or goes on along the extension. -/
theorem IsTree.walk_extendAll_cases {nodes : Array Node} (h : IsTree nodes) {place : Nat} {path : List Char}
    (hpath : walk nodes 0 path = some place) (cs : List Char) {ds : List Char} {k : Nat}
    (hk : walk (Trie.extendAll nodes place cs).1 0 ds = some k) :
    (∃ j, walk nodes 0 ds = some j) ∨ ∃ es, es <+: cs ∧ ds = path ++ es := by
  induction cs generalizing nodes place path k with
  | nil => exact .inl ⟨k, hk⟩
  | cons c rest ih =>
    have hplace := h.walk_lt h.rooted hpath
    have hgrows := grows_extend hplace c
    obtain ⟨htree, -⟩ := h.extend hplace c
    have hnext : walk (Trie.extend nodes place c).1 0 (path ++ [c]) = some (Trie.extend nodes place c).2 :=
      walk_concat_eq_some_iff.2 ⟨place, hgrows.walk hpath, by rw [child?_extend hplace, if_pos ⟨rfl, rfl⟩]⟩
    rcases ih htree hnext hk with ⟨j, hj⟩ | ⟨es, hes, rfl⟩
    · rcases Nat.lt_or_ge j nodes.size with hlt | hge
      · exact .inl ⟨j, hgrows.walk_of_lt htree hj hlt⟩
      · -- the only new place is the one that the first character leads to
        have hj' := htree.walk_lt htree.rooted hj
        rcases extend_cases nodes place c with ⟨-, hsize⟩ | ⟨-, hnew, hsize⟩
        · omega
        · obtain rfl : j = (Trie.extend nodes place c).2 := by omega
          exact .inr ⟨[c], by simp, htree.path_unique hj hnext⟩
    · exact .inr ⟨c :: es, List.cons_prefix_cons.2 ⟨rfl, hes⟩, by simp⟩

/-- **An insertion adds the paths to its text,** and no others. -/
theorem exists_walk_insert_iff {t : Trie} (h : IsTree t.nodes) (text : String) (e : Entry) (cs : List Char) :
    (∃ k, walk (t.insert text e).nodes 0 cs = some k) ↔
      (∃ k, walk t.nodes 0 cs = some k) ∨ cs <+: (Text.lower text).toList := by
  have hchildren : ∀ n : Node, (n.mark e).children = n.children := fun _ => rfl
  rw [nodes_insert, walk_modify hchildren]
  constructor
  · rintro ⟨k, hk⟩
    rcases h.walk_extendAll_cases (walk_nil t.nodes 0) _ hk with hold | ⟨es, hes, rfl⟩
    · exact .inl hold
    · exact .inr hes
  · rintro (⟨k, hk⟩ | hcs)
    · exact ⟨k, (h.grows_extendAll t.size_pos _).walk hk⟩
    · exact exists_walk_of_prefix hcs (h.walk_extendAll t.size_pos (Text.lower text).toList)

/-! ### Marks -/

/-- Marks one after the other. -/
theorem Node.foldl_mark (n : Node) (entries : List Entry) :
    entries.foldl Node.mark n =
      ⟨n.children, n.terminal || !entries.isEmpty, Entry.pushAll n.entries entries,
        n.frequency + .ofNat entries.length⟩ := by
  induction entries generalizing n with
  | nil => simp [Entry.pushAll]
  | cons e rest ih =>
    rw [List.foldl_cons, ih]
    simp [Node.mark, Entry.pushAll, UInt64.ofNat_add, UInt64.add_assoc, UInt64.add_comm]

/-- The trie of entries that are inserted under a text one after the other. -/
def ofInserts (inserts : List (String × Entry)) : Trie := inserts.foldl (fun t x => t.insert x.1 x.2) ∅

theorem trie_ofInserts (inserts : List (String × Entry)) : (Index.ofInserts inserts).trie = ofInserts inserts := by
  induction inserts using List.reverseRecOn with
  | nil => rfl
  | append_singleton inserts x ih =>
    rw [Index.ofInserts_concat, ofInserts, List.foldl_append]
    exact congrArg (fun t : Trie => t.insert x.1 x.2) ih

theorem ofInserts_concat (inserts : List (String × Entry)) (text : String) (e : Entry) :
    ofInserts (inserts ++ [(text, e)]) = (ofInserts inserts).insert text e := by
  rw [ofInserts, List.foldl_append]
  rfl

theorem isTree_nodes_ofInserts (inserts : List (String × Entry)) : IsTree (ofInserts inserts).nodes := by
  rw [← trie_ofInserts]
  exact isTree_ofInserts inserts

/-- **The paths are the initial parts of the texts in lower case.** -/
theorem exists_walk_ofInserts_iff (inserts : List (String × Entry)) (cs : List Char) :
    (∃ k, walk (ofInserts inserts).nodes 0 cs = some k) ↔
      cs = [] ∨ ∃ x ∈ inserts, cs <+: (Text.lower x.1).toList := by
  induction inserts using List.reverseRecOn with
  | nil =>
    cases cs with
    | nil => exact iff_of_true ⟨0, rfl⟩ (.inl rfl)
    | cons c rest =>
      have hchild : child? (ofInserts []).nodes 0 c = none := child?_empty 0 c
      simp [walk_cons, hchild]
  | append_singleton inserts x ih =>
    rw [ofInserts_concat, exists_walk_insert_iff (isTree_nodes_ofInserts inserts), ih, or_assoc]
    simp only [List.mem_append, List.mem_singleton]
    refine or_congr_right ⟨?_, ?_⟩
    · rintro (⟨y, hy, hcs⟩ | hcs)
      · exact ⟨y, .inl hy, hcs⟩
      · exact ⟨x, .inr rfl, hcs⟩
    · rintro ⟨y, hy | rfl, hcs⟩
      · exact .inl ⟨y, hy, hcs⟩
      · exact .inr hcs

/-- The entries that are inserted under a text in lower case, in their order. -/
def insertedUnder (inserts : List (String × Entry)) (key : String) : List Entry :=
  (inserts.filter fun x => Text.lower x.1 = key).map Prod.snd

/-- **At the end of a path stand the marks of the insertions under its text.** -/
theorem contentAt_ofInserts (inserts : List (String × Entry)) (cs : List Char) :
    contentAt (ofInserts inserts).nodes cs = (insertedUnder inserts (String.ofList cs)).foldl Node.mark {} := by
  induction inserts using List.reverseRecOn with
  | nil =>
    cases cs with
    | nil => rfl
    | cons c rest =>
      refine contentAt_of_walk_none ?_
      rw [walk_cons, show child? (ofInserts []).nodes 0 c = none from child?_empty 0 c]
      rfl
  | append_singleton inserts x ih =>
    rw [ofInserts_concat, contentAt_insert (isTree_nodes_ofInserts inserts), ih, insertedUnder, insertedUnder,
      List.filter_append, List.map_append, List.foldl_append]
    by_cases hcs : cs = (Text.lower x.1).toList
    · subst hcs
      simp [String.ofList_toList]
    · have hkey : Text.lower x.1 ≠ String.ofList cs := fun heq => hcs (by rw [heq, String.toList_ofList])
      simp [hcs, hkey]

/-- What stands in the node at the end of a path. -/
theorem bare_node_ofInserts {inserts : List (String × Entry)} {cs : List Char} {p : Nat}
    (h : walk (ofInserts inserts).nodes 0 cs = some p) :
    ((ofInserts inserts).node p).bare =
      ⟨∅, !(insertedUnder inserts (String.ofList cs)).isEmpty, Entry.pushAll [] (insertedUnder inserts (String.ofList cs)),
        .ofNat (insertedUnder inserts (String.ofList cs)).length⟩ := by
  have hcontent := contentAt_ofInserts inserts cs
  rw [contentAt_of_walk h, Node.foldl_mark] at hcontent
  rw [node, hcontent]
  simp

/-- **What a trie of inserted entries holds.**  There is a path for every initial part of a text in lower case, and no other
but the empty one.  Its end says whether a text ends there, how many insertions ended there, in a word of 64 bits, and the
first entry of each key that they brought.  And every node is at the end of one path. -/
theorem content_ofInserts (inserts : List (String × Entry)) :
    (∀ s : String, (∃ p, (ofInserts inserts).descend? 0 s.toList = some p) ↔
      s = "" ∨ ∃ x ∈ inserts, s.toList <+: (Text.lower x.1).toList) ∧
    (∀ (s : String) (p : Nat), (ofInserts inserts).descend? 0 s.toList = some p →
      p < (ofInserts inserts).nodes.size ∧
      (((ofInserts inserts).node p).terminal = true ↔ ∃ x ∈ inserts, Text.lower x.1 = s) ∧
      ((ofInserts inserts).node p).frequency = .ofNat (inserts.countP fun x => Text.lower x.1 = s) ∧
      ((ofInserts inserts).node p).entries =
        ((inserts.filter fun x => Text.lower x.1 = s).map Prod.snd).eraseDupsBy fun e f => e.key = f.key) ∧
    ∀ p < (ofInserts inserts).nodes.size, ∃! s : String, (ofInserts inserts).descend? 0 s.toList = some p := by
  have htree := isTree_nodes_ofInserts inserts
  simp only [descend?_eq_walk]
  refine ⟨fun s => ?_, fun s p hp => ?_, fun p hp => ?_⟩
  · rw [exists_walk_ofInserts_iff, String.toList_eq_nil_iff]
  · have hnode := bare_node_ofInserts hp
    rw [String.ofList_toList] at hnode
    have hterminal := congrArg Node.terminal hnode
    have hfrequency := congrArg Node.frequency hnode
    have hentries := congrArg Node.entries hnode
    refine ⟨htree.walk_lt htree.rooted hp, ?_, hfrequency.trans ?_, hentries.trans (Entry.pushAll_eq_eraseDupsBy _)⟩
    · rw [show ((ofInserts inserts).node p).terminal = _ from hterminal]
      simp [insertedUnder]
    · simp [insertedUnder, List.countP_eq_length_filter]
  · obtain ⟨cs, hcs⟩ := htree.exists_path hp
    refine ⟨String.ofList cs, ?_, fun s hs => ?_⟩
    · dsimp only
      rwa [String.toList_ofList]
    · rw [← htree.path_unique hs hcs, String.ofList_toList]

end Trie
end Suggest
