/-
# Node lists that are trees

Nodes that come from outside make up a trie if they form a single tree with the first node as its root and every child
behind its parent. That is checked node by node:

| what is wrong | reported as |
| --- | --- |
| there is no node | `noRoot` |
| a child that is not behind its parent, or not in the list | `outOfOrder` |
| a child that another node has already | `shared` |
| a node other than the root that no node has as a child | `unreachable` |

The first fault in the order of the nodes, and of the characters at a node, is the one reported.
-/

import Suggest.Trie.Basic

namespace Suggest
namespace Trie

/-- Why a list of nodes is no tree. -/
inductive Malformation where
  | noRoot
  | outOfOrder (parent child : Nat)
  | shared (child : Nat)
  | unreachable (place : Nat)
  deriving DecidableEq, Repr

/-- The wording of a malformation. -/
def Malformation.message : Malformation → String
  | .noRoot => "trie has no root node"
  | .outOfOrder parent child => "node " ++ toString parent ++ " has out-of-order child " ++ toString child
  | .shared child => "node " ++ toString child ++ " has more than one parent"
  | .unreachable place => "node " ++ toString place ++ " is unreachable"

/-- Mark the children of a node as children. -/
def markChildren (parent : Nat) : List Nat → Array Bool → Except Malformation (Array Bool)
  | [], marks => .ok marks
  | child :: rest, marks =>
    if child ≤ parent || marks.size ≤ child then .error (.outOfOrder parent child)
    else if marks.getD child false then .error (.shared child)
    else markChildren parent rest (marks.setIfInBounds child true)

/-- Mark the children of nodes, the first of which is at the given place. -/
def markNodes (place : Nat) : List Node → Array Bool → Except Malformation (Array Bool)
  | [], marks => .ok marks
  | n :: rest, marks => do markNodes (place + 1) rest (← markChildren place n.children.values marks)

/-- The first place from the given one on that is not marked. -/
def unmarked? (place : Nat) : List Bool → Option Nat
  | [] => none
  | mark :: rest => if mark then unmarked? (place + 1) rest else some place

/-- The trie with the given nodes, if they are a tree. -/
def ofNodes (nodes : Array Node) : Except Malformation Trie :=
  if h : 0 < nodes.size then do
    let marks ← markNodes 0 nodes.toList (Array.replicate nodes.size false)
    match unmarked? 1 (marks.toList.drop 1) with
    | some place => .error (.unreachable place)
    | none => .ok ⟨nodes, h⟩
  else .error .noRoot

/-- Nothing but the nodes goes into the trie. -/
theorem nodes_of_ofNodes {nodes : Array Node} {t : Trie} (h : ofNodes nodes = .ok t) : t.nodes = nodes := by
  unfold ofNodes at h
  split at h
  · cases hm : markNodes 0 nodes.toList (Array.replicate nodes.size false) with
    | error => simp [hm, bind, Except.bind] at h
    | ok marks =>
      simp only [hm, bind, Except.bind] at h
      split at h <;> cases h
      rfl
  · cases h

end Trie
end Suggest
