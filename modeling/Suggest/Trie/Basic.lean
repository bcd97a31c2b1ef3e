/-
# Tries

A trie is a list of nodes. Node 0 is the root, and a node names its children by their places in the list, one for each
character that goes on from it. A node is made after its parent, so its place is behind its parent's.

Texts are inserted and looked up in lower case. Of the entries inserted at a node only the first of each key is kept, but
the frequency counts them all, in a word of 64 bits.

A search walks the nodes below the prefix in the order of their texts and stops at the first node that makes up the
limit. What it has met by then is sorted by score and cut. If it cannot be sorted there is no answer (`Trie.search?`).
-/

import Suggest.Postings

namespace Suggest

namespace Trie

/-- A node: the places of its children, and what was inserted at it. -/
structure Node where
  children : SortedMap Char Nat := ∅
  terminal : Bool := false
  entries : List Entry := []
  frequency : UInt64 := 0
  deriving DecidableEq

instance : Inhabited Node := ⟨{}⟩

namespace Node

/-- The node after one more insertion at it. -/
def mark (n : Node) (e : Entry) : Node :=
  { n with terminal := true, entries := Entry.pushUnique n.entries e, frequency := n.frequency + 1 }

/-- How a node is read. -/
def reader : Json.Reader Node :=
  Json.Fields.record
    (.cons (.defaulted "children" (.characterMap (.natural Json.Reader.maxWord)) ∅) <|
      .cons (.defaulted "is_end_of_word" .bool false) <|
      .cons (.defaulted "results" (.list Entry.reader) []) <|
      .cons (.defaulted "frequency" (.natural Json.Reader.maxWord) 0) .nil)
    fun (children, terminal, entries, frequency, ()) => ⟨children, terminal, entries, .ofNat frequency⟩

/-- A node in JSON. -/
def write (n : Node) : List Char :=
  Json.object [
    ("children", Json.object (n.children.toList.map fun (c, child) => (String.singleton c, Json.natural child))),
    ("is_end_of_word", Json.bool n.terminal),
    ("results", Json.array (n.entries.map Entry.write)),
    ("frequency", Json.natural n.frequency.toNat)]

end Node

end Trie

/-- A list of nodes with a root. -/
structure Trie where
  nodes : Array Trie.Node
  size_pos : 0 < nodes.size
  deriving DecidableEq

namespace Trie

/-- The trie with nothing but a root. -/
def empty : Trie := ⟨#[{}], by decide⟩

instance : EmptyCollection Trie := ⟨empty⟩

instance : Inhabited Trie := ⟨empty⟩

/-- The node at a place. -/
def node (t : Trie) (place : Nat) : Node := t.nodes.getD place {}

/-- The place of the child for a character. -/
def child? (nodes : Array Node) (place : Nat) (c : Char) : Option Nat := do (← nodes[place]?).children.get? c

/-- The nodes with a child for the character, and the place of that child. -/
def extend (nodes : Array Node) (place : Nat) (c : Char) : Array Node × Nat :=
  match child? nodes place c with
  | some child => (nodes, child)
  | none =>
    let child := nodes.size
    ((nodes.modify place fun n => { n with children := n.children.insert c child }).push {}, child)

/-- The nodes with a path for the characters, and the place of its end. -/
def extendAll (nodes : Array Node) (place : Nat) : List Char → Array Node × Nat
  | [] => (nodes, place)
  | c :: rest => extendAll (extend nodes place c).1 (extend nodes place c).2 rest

theorem size_le_extend (nodes : Array Node) (place : Nat) (c : Char) :
    nodes.size ≤ (extend nodes place c).1.size := by
  rw [extend]
  split <;> simp

theorem size_le_extendAll (nodes : Array Node) (place : Nat) (cs : List Char) :
    nodes.size ≤ (extendAll nodes place cs).1.size := by
  induction cs generalizing nodes place with
  | nil => simp [extendAll]
  | cons c rest ih => exact Nat.le_trans (size_le_extend nodes place c) (ih _ _)

/-- Insert an entry under a text. -/
def insert (t : Trie) (text : String) (e : Entry) : Trie :=
  let path := extendAll t.nodes 0 (Text.lower text).toList
  ⟨path.1.modify path.2 (·.mark e), by
    rw [Array.size_modify]; exact Nat.lt_of_lt_of_le t.size_pos (size_le_extendAll ..)⟩

/-- The place where a path from another place ends. -/
def descend? (t : Trie) (place : Nat) : List Char → Option Nat
  | [] => some place
  | c :: rest => do descend? t (← child? t.nodes place c) rest

/-- The place of a text. -/
def find? (t : Trie) (text : String) : Option Nat := t.descend? 0 (Text.lower text).toList

/-- The node of a text. -/
def node? (t : Trie) (text : String) : Option Node := (t.find? text).map t.node

/-- An entry and the frequency of its node. -/
structure Match where
  entry : Entry
  frequency : UInt64
  deriving DecidableEq

/-- The matches at a node. -/
def Node.matches (n : Node) : List Match := if n.terminal then n.entries.map (⟨·, n.frequency⟩) else []

/-- Visit the nodes on a stack and those below them, every node before its children and these in ascending order, until
enough matches have been met. At most `fuel` nodes are visited. -/
def collect (t : Trie) (limit : Nat) : Nat → List Nat → List Match → List Match
  | 0, _, met => met
  | _, [], met => met
  | fuel + 1, place :: stack, met =>
    let met := met ++ (t.node place).matches
    if limit ≤ met.length then met
    else t.collect limit fuel ((t.node place).children.values ++ stack) met

/-- Whether a match has to stand before another. -/
def Match.before (tieBreak : TieBreak) (a b : Match) : Bool :=
  match compareScores a.entry.score b.entry.score with
  | .lt => true
  | .gt => false
  | .eq => match tieBreak with
    | .queriedNode => false
    | .resultNode => b.frequency < a.frequency

/-- How many bytes a match takes: it refers to its entry. -/
def Match.size : Nat := 16

/-- Matches in the order in which they have to stand, if they can be sorted. -/
def Match.sort? (tieBreak : TieBreak) (found : List Match) : Option (List Match) :=
  RunSort.sort? size (before tieBreak) found

/-- The entries whose text starts with a prefix, the best ones of those met first, if these can be sorted. -/
def search? (t : Trie) (start : String) (limit : Nat) (tieBreak : TieBreak) : Option (List Entry) :=
  if start.isEmpty || limit = 0 then some []
  else match t.find? start with
    | some place =>
      (Match.sort? tieBreak (t.collect limit t.nodes.size [place] [])).map fun sorted =>
        (sorted.take limit).map Match.entry
    | none => some []

/-- How many nodes a trie has, and how many of them end a text. -/
structure Counts where
  total : Nat
  terminal : Nat
  deriving DecidableEq, Repr

/-- Count the nodes on a stack and those below them, at most `fuel`. -/
def countFrom (t : Trie) : Nat → List Nat → Counts → Counts
  | 0, _, counts => counts
  | _, [], counts => counts
  | fuel + 1, place :: stack, counts =>
    t.countFrom fuel ((t.node place).children.values ++ stack)
      ⟨counts.total + 1, counts.terminal + (t.node place).terminal.toNat⟩

/-- Count the nodes that can be reached. -/
def counts (t : Trie) : Counts := t.countFrom t.nodes.size [0] ⟨0, 0⟩

end Trie

end Suggest
