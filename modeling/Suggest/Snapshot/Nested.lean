/-
# Nested nodes

Old documents write a trie as a node inside a node. Such a tree is laid out as a list of nodes with every node before
those below it, and of two children the later one first.
-/

import Suggest.Trie.Tree

namespace Suggest
namespace Trie

/-- A node with its children inside, in ascending order of their characters. -/
inductive Nested where
  | node (children : List (Char × Nested)) (terminal : Bool) (entries : List Entry) (frequency : UInt64)

namespace Nested

instance : Inhabited Nested := ⟨.node [] false [] 0⟩

/-- How a nested node is read, as far as nodes are nested no deeper than `depth`. -/
def reader : Nat → Json.Reader Nested
  | 0 => fun _ _ => .error .malformed
  | depth + 1 =>
    Json.Fields.record
      (.cons (.defaulted "children" (.characterMap (reader depth)) ∅) <|
        .cons (.defaulted "is_end_of_word" .bool false) <|
        .cons (.defaulted "results" (.list Entry.reader) []) <|
        .cons (.defaulted "frequency" (.natural Json.Reader.maxWord) 0) .nil)
      fun (children, terminal, entries, frequency, ()) => .node children.toList terminal entries (.ofNat frequency)

mutual

/-- How many nodes there are in a nested node. -/
def size : Nested → Nat
  | .node children _ _ _ => sizeOfChildren children + 1

/-- How many nodes there are in a list of children. -/
def sizeOfChildren : List (Char × Nested) → Nat
  | [] => 0
  | (_, n) :: rest => n.size + sizeOfChildren rest

end

/-- Make the last node of the list the child of another one, if there is one to be its parent. -/
def link (nodes : Array Node) (parent : Option (Nat × Char)) : Array Node :=
  match parent with
  | none => nodes
  | some (place, c) =>
    let child := nodes.size - 1
    nodes.modify place fun n => { n with children := n.children.insert c child }

mutual

/-- Append a nested node and those below it. -/
def layOut (nodes : Array Node) (parent : Option (Nat × Char)) : Nested → Array Node
  | .node children terminal entries frequency =>
    layOutChildren (link (nodes.push ⟨∅, terminal, entries, frequency⟩) parent) nodes.size children

/-- Append the children of the node at a place and those below them, the last child first. -/
def layOutChildren (nodes : Array Node) (place : Nat) : List (Char × Nested) → Array Node
  | [] => nodes
  | (c, n) :: rest => layOut (layOutChildren nodes place rest) (some (place, c)) n

end

/-- The trie that a nested node is the root of. -/
def toTrie (n : Nested) : Except Malformation Trie := ofNodes (layOut #[] none n)

end Nested

end Trie
end Suggest
