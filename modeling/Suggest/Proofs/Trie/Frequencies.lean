/-
# What the frequencies add up to

An insertion makes nodes that nothing was inserted at, and counts up the frequency of one node (`IsTree.total_insert`).  So the
frequencies of all nodes add up to the number of insertions, whether an entry was kept or not: in words of 64 bits, whatever that
number is (`total_ofInserts`), and as numbers if it is less than `2 ^ 64` (`total_toNat_ofInserts`).
-/

import Mathlib.Algebra.BigOperators.Group.List.Basic
import Mathlib.Data.UInt
import Suggest.Proofs.Trie.Contents

namespace Suggest

/-- A changed item of a list stands beside the others. -/
theorem perm_modify {α : Type} (change : α → α) {l : List α} {place : Nat} (h : place < l.length) :
    (l.modify place change).Perm (change l[place] :: l.eraseIdx place) := by
  have hplace : place < (l.modify place change).length := by rwa [List.length_modify]
  have hperm := List.getElem_cons_eraseIdx_perm hplace
  rw [List.getElem_modify_eq, List.eraseIdx_modify_of_eq] at hperm
  exact hperm.symm

namespace Trie

/-- What the frequencies of nodes add up to, each of them taken as what it counts. -/
def total {M : Type} [AddCommMonoid M] (counted : UInt64 → M) (nodes : List Node) : M :=
  (nodes.map fun n => counted n.frequency).sum

variable {M : Type} [AddCommMonoid M] {counted : UInt64 → M}

theorem total_cons (n : Node) (nodes : List Node) :
    total counted (n :: nodes) = counted n.frequency + total counted nodes := List.sum_cons

theorem total_of_perm {nodes others : List Node} (h : nodes.Perm others) : total counted nodes = total counted others :=
  (h.map _).sum_eq

/-- What does not change the frequency of a node does not change the sum. -/
theorem total_modify_of_frequency_eq {nodes : List Node} {place : Nat} (h : place < nodes.length) {change : Node → Node}
    (hchange : ∀ n, (change n).frequency = n.frequency) :
    total counted (nodes.modify place change) = total counted nodes := by
  rw [total_of_perm (perm_modify change h), total_cons, hchange, ← total_cons,
    total_of_perm (List.getElem_cons_eraseIdx_perm h)]

theorem total_extend (hzero : counted 0 = 0) {nodes : Array Node} {place : Nat} (h : place < nodes.size) (c : Char) :
    total counted (extend nodes place c).1.toList = total counted nodes.toList := by
  rw [extend]
  split
  · rfl
  · rw [Array.toList_push, Array.toList_modify, total_of_perm (List.perm_append_singleton _ _), total_cons,
      total_modify_of_frequency_eq h]
    · exact (congrArg (· + _) hzero).trans (zero_add _)
    · exact fun _ => rfl

theorem IsTree.total_extendAll (hzero : counted 0 = 0) {nodes : Array Node} (htree : IsTree nodes) {place : Nat}
    (h : place < nodes.size) (cs : List Char) :
    total counted (Trie.extendAll nodes place cs).1.toList = total counted nodes.toList := by
  induction cs generalizing nodes place with
  | nil => rfl
  | cons c rest ih =>
    obtain ⟨hnext, hplace⟩ := htree.extend h c
    exact (ih hnext hplace).trans (total_extend hzero h c)

/-- **An insertion counts up one frequency** and leaves the others as they are. -/
theorem IsTree.total_insert {t : Trie} (h : IsTree t.nodes) (text : String) (e : Entry) :
    ∃ (marked : Node) (others : List Node), ∀ {M : Type} [AddCommMonoid M] {counted : UInt64 → M}, counted 0 = 0 →
      total counted t.nodes.toList = counted marked.frequency + total counted others ∧
        total counted (t.insert text e).nodes.toList = counted (marked.frequency + 1) + total counted others := by
  obtain ⟨-, hplace⟩ := h.extendAll t.size_pos (Text.lower text).toList
  refine ⟨(Trie.extendAll t.nodes 0 (Text.lower text).toList).1.toList[(Trie.extendAll t.nodes 0 (Text.lower text).toList).2],
    (Trie.extendAll t.nodes 0 (Text.lower text).toList).1.toList.eraseIdx (Trie.extendAll t.nodes 0 (Text.lower text).toList).2,
    fun {M} _ {counted} hzero => ⟨?_, ?_⟩⟩
  · rw [← h.total_extendAll hzero t.size_pos (Text.lower text).toList, ← total_cons]
    exact total_of_perm (List.getElem_cons_eraseIdx_perm hplace).symm
  · rw [nodes_insert, Array.toList_modify, total_of_perm (perm_modify _ hplace), total_cons]
    rfl

/-- **The frequencies add up to the number of insertions,** in words of 64 bits. -/
theorem total_ofInserts (inserts : List (String × Entry)) :
    total id (ofInserts inserts).nodes.toList = .ofNat inserts.length := by
  induction inserts using List.reverseRecOn with
  | nil => rfl
  | append_singleton inserts x ih =>
    obtain ⟨marked, others, htotal⟩ := (isTree_nodes_ofInserts inserts).total_insert x.1 x.2
    obtain ⟨hold, hnew⟩ := @htotal UInt64 _ id rfl
    rw [ofInserts_concat, hnew, List.length_append, List.length_singleton, UInt64.ofNat_add, ← ih, hold]
    simp only [id_eq]
    rw [add_right_comm]
    rfl

/-- If there are more words than insertions, what the words stand for adds up to the number of insertions. -/
theorem total_toNat_ofInserts {inserts : List (String × Entry)} (h : inserts.length < 2 ^ 64) :
    total UInt64.toNat (ofInserts inserts).nodes.toList = inserts.length := by
  induction inserts using List.reverseRecOn with
  | nil => rfl
  | append_singleton inserts x ih =>
    obtain ⟨marked, others, htotal⟩ := (isTree_nodes_ofInserts inserts).total_insert x.1 x.2
    obtain ⟨hold, hnew⟩ := @htotal Nat _ UInt64.toNat rfl
    rw [List.length_append, List.length_singleton] at h ⊢
    rw [ih (by omega)] at hold
    -- no frequency is greater than the sum, so none is the last word
    have hnext : (marked.frequency + 1).toNat = marked.frequency.toNat + 1 := by
      rw [UInt64.toNat_add]
      exact Nat.mod_eq_of_lt (by simp only [UInt64.toNat_one]; omega)
    rw [ofInserts_concat, hnew, hnext]
    omega

end Trie
end Suggest
