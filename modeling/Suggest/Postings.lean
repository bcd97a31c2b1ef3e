/-
# Postings

Postings list the entries that stand under a key. The same kind of map serves two indexes: under each word, the entries
with the word in their text, and under each text in lower case, the entries with the text. No list has two entries with
one key (`Entry.pushUnique`).

| search | finds the entries under |
| --- | --- |
| `exact` | the word itself |
| `containing` | the longer words that contain it |
| `substringHits` | the texts that contain it, weighted by the place of the first match |
-/

import Suggest.Ranking
import Suggest.Text.Occurrence
import Suggest.Text.Word

namespace Suggest

/-- Entries by key, the keys in ascending order. -/
abbrev Postings := SortedMap String (List Entry)

namespace Postings

/-- Put an entry under a key. -/
def add (p : Postings) (key : String) (e : Entry) : Postings :=
  p.alter key fun entries => Entry.pushUnique (entries.getD []) e

/-- Put an entry under each word of a text. -/
def addWords (p : Postings) (text : String) (e : Entry) : Postings :=
  (Text.distinctWords text).foldl (fun p word => p.add word e) p

/-- Put an entry under a text. -/
def addText (p : Postings) (text : String) (e : Entry) : Postings := p.add (Text.lower text) e

/-- The entries under a key. -/
def exact (p : Postings) (key : String) : List Entry := (p.get? key).getD []

/-- The entries under the other keys that contain a word. -/
def containing (p : Postings) (word : String) : List Entry :=
  p.toList.flatMap fun (key, entries) => if key ≠ word ∧ Text.contains key word then entries else []

/-- The entries under a key that contains the needle, with the weight of its first place there. -/
def hitsUnder (needle : String) (ranking : Ranking) (weight : Single) (key : String) (entries : List Entry) :
    List Entry :=
  match Text.charOffset? key needle with
  | some offset => entries.map fun e => e.scaled ((ranking.positionFactor offset key.length).mul weight)
  | none => []

/-- The entries under the keys that contain a needle, which must not be empty. -/
def substringHits (p : Postings) (needle : String) (ranking : Ranking) (weight : Single) : List Entry :=
  if needle.isEmpty then []
  else p.toList.flatMap fun (key, entries) => hitsUnder needle ranking weight key entries

@[simp] theorem get?_add_self (p : Postings) (key : String) (e : Entry) :
    (p.add key e).get? key = some (Entry.pushUnique (p.exact key) e) :=
  SortedMap.get?_alter_self ..

theorem get?_add_of_ne (p : Postings) {key other : String} (h : other ≠ key) (e : Entry) :
    (p.add key e).get? other = p.get? other :=
  SortedMap.get?_alter_of_ne p h _

/-- How postings are read. -/
def reader : Json.Reader Postings := .sortedMap (.list Entry.reader)

/-- Postings in JSON. -/
def write (p : Postings) : List Char :=
  Json.object (p.toList.map fun (key, entries) => (key, Json.array (entries.map Entry.write)))

end Postings

end Suggest
