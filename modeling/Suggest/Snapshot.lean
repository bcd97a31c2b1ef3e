/-
# Snapshots

A snapshot is an index written down as JSON. It says in which version of the format it is written:

| version | trie | indexes of words and texts |
| ---: | --- | --- |
| none | a nested node, which is the whole document | none |
| 1 | a nested node, the member `trie` | not kept |
| 2 | a nested node, the member `trie` | the members `tokens` and `texts` |
| 3 | a list of nodes, the member `nodes` of the member `trie` | the members `tokens` and `texts` |

Snapshots are written in version 3, and all four are read.
-/

import Suggest.Index
import Suggest.Snapshot.Nested

namespace Suggest

namespace Snapshot

/-- The version that snapshots are written in, the newest one there is. -/
def newest : Nat := 3

/-- The name of the member that says the version. -/
def versionTag : String := "format_version"

/-- How a snapshot is written: without a version, or in a version of the format. -/
inductive Form where
  | untagged
  | version (n : Nat)
  deriving DecidableEq, Repr

/-- Why bytes are no snapshot. -/
inductive Refusal where
  | json (fault : Json.Fault)
  | unsupportedVersion (found : Nat)
  | invalidVersionTag
  | corruptTrie (cause : Trie.Malformation)
  deriving DecidableEq, Repr

/-- The wording of a refusal. -/
def Refusal.message : Refusal → String
  | .json fault => "snapshot json error: " ++ fault.message
  | .unsupportedVersion found =>
    "unsupported snapshot format version " ++ toString found ++ ", newest supported is " ++ toString newest
  | .invalidVersionTag => "snapshot format_version is not an unsigned integer"
  | .corruptTrie cause => "snapshot trie is malformed: " ++ cause.message

/-- An index in the newest version. -/
def write (i : Index) : List Char :=
  Json.object [
    (versionTag, Json.natural newest),
    ("trie", Json.object [("nodes", Json.array (i.trie.nodes.toList.map Trie.Node.write))]),
    ("tokens", i.words.write),
    ("texts", i.texts.write)]

/-- The text of an index. -/
def encode (i : Index) : String := Json.text (write i)

/-- A trie with both indexes, as a document has them. -/
structure Parts (α : Type) where
  trie : α
  words : Postings
  texts : Postings

/-- How a document is read in which a trie stands beside the indexes. -/
def partsReader {α : Type} (trie : Json.Reader α) : Json.Reader (Parts α) :=
  Json.Fields.record
    (.cons (.required "trie" trie) <|
      .cons (.defaulted "tokens" Postings.reader ∅) <|
      .cons (.defaulted "texts" Postings.reader ∅) .nil)
    fun (trie, words, texts, ()) => ⟨trie, words, texts⟩

/-- How a list of nodes is read. -/
def nodesReader : Json.Reader (List Trie.Node) :=
  Json.Fields.record (.cons (.required "nodes" (.list Trie.Node.reader)) .nil) fun (nodes, ()) => nodes

/-- What a reader makes of a value. -/
def ofValue {α : Type} (reader : Json.Reader α) (v : Json.Value) : Except Refusal α :=
  (reader.ofValue v).mapError .json

/-- The version that a document says it is written in. -/
def formOf (v : Json.Value) : Except Refusal Form :=
  match v.member? versionTag with
  | none => .ok .untagged
  | some (.number (.integer n)) => if 0 ≤ n then .ok (.version n.toNat) else .error .invalidVersionTag
  | some _ => .error .invalidVersionTag

/-- The nodes of an untagged document, or of the member `trie` of another old one. -/
def nestedReader (v : Json.Value) : Json.Reader Trie.Nested := Trie.Nested.reader (v.depth + 1)

/-- The trie of nodes that a document has. -/
def trieOf (trie : Except Trie.Malformation Trie) : Except Refusal Trie := trie.mapError .corruptTrie

/-- The index that a document of a form describes. -/
def ofForm (v : Json.Value) : Form → Except Refusal Index
  | .untagged => do
    let root ← ofValue (nestedReader v) v
    return { trie := ← trieOf root.toTrie }
  | .version 1 => do
    let parts ← ofValue (partsReader (nestedReader v)) v
    return { trie := ← trieOf parts.trie.toTrie }
  | .version 2 => do
    let parts ← ofValue (partsReader (nestedReader v)) v
    return ⟨← trieOf parts.trie.toTrie, parts.words, parts.texts⟩
  | .version 3 => do
    let parts ← ofValue (partsReader nodesReader) v
    return ⟨← trieOf (Trie.ofNodes parts.trie.toArray), parts.words, parts.texts⟩
  | .version n => .error (.unsupportedVersion n)

/-- The index that bytes describe, and how it was written. -/
def decode (bytes : Bytes) : Except Refusal (Form × Index) := do
  let v ← (Json.Value.ofBytes bytes).mapError .json
  let form ← formOf v
  return (form, ← ofForm v form)

end Snapshot

end Suggest
