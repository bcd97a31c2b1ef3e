/-
# Search indexes

An index holds every entry three times: in a trie under its text, under each word of its text, and under its text as a
whole. Each search strategy asks one or more of them:

| strategy | finds | order |
| --- | --- | --- |
| `prefixSearch?` | texts that start with the query | score, then tie break |
| `keywordSearch?` | entries with every word of the query | score |
| `prefixOrSubstringSearch?` | the same as by prefix, and texts that contain the query if these are few | score |
| `hybridSearch?` | what the last two find | one behind the other |

A word is looked up exactly, then among the longer words, then inside whole texts, and an entry counts where it is found
first. There is no answer where the scores are in no order.
-/

import Suggest.Trie.Basic

namespace Suggest

/-- A trie, the entries under each word, and the entries under each text. -/
structure Index where
  trie : Trie := ∅
  words : Postings := ∅
  texts : Postings := ∅
  deriving DecidableEq

namespace Index

instance : Inhabited Index := ⟨{}⟩

instance : EmptyCollection Index := ⟨{}⟩

/-- Insert an entry under a text. -/
def insert (i : Index) (text : String) (e : Entry) : Index :=
  ⟨i.trie.insert text e, i.words.addWords text e, i.texts.addText text e⟩

/-- The entries whose text starts with the query. -/
def prefixSearch? (i : Index) (query : String) (limit : Nat) (ranking : Ranking) : Option (List Entry) :=
  i.trie.search? query limit ranking.tieBreak

/-- The entries for a word: those under the word, those under longer words, and those under texts that contain it. -/
def wordMatches (i : Index) (ranking : Ranking) (word : String) : List Entry :=
  let exact := Entry.pushAll [] (i.words.exact word)
  let longer := (i.words.containing word).map fun e => e.scaled Ranking.longerWordWeight
  let inside := i.texts.substringHits word ranking Ranking.insideTextWeight
  Entry.pushAll (Entry.pushAll exact longer) inside

/-- The entries that every one of some more words finds as well. -/
def narrow (i : Index) (ranking : Ranking) (entries : List Entry) : List String → List Entry
  | [] => entries
  | word :: rest =>
    if entries.isEmpty then entries
    else
      let found := i.wordMatches ranking word
      i.narrow ranking (entries.filter fun e => Entry.occurs e.key found) rest

/-- The entries that every word of the query finds, with the scores of the first word. -/
def keywordSearch? (i : Index) (query : String) (limit : Nat) (ranking : Ranking) : Option (List Entry) :=
  match Text.distinctWords query with
  | [] => some []
  | word :: rest =>
    if limit = 0 then some []
    else (Entry.sortByScore? (i.narrow ranking (i.wordMatches ranking word) rest)).map (·.take limit)

/-- The entries that were found by prefix, and if these are fewer than the limit, or if it is asked for, behind them the
entries whose text contains the query. -/
def topUp (i : Index) (query : String) (limit : Nat) (includeSubstring : Bool) (ranking : Ranking) (found : List Entry) :
    List Entry :=
  if includeSubstring || found.length < limit then
    Entry.pushAll found (i.texts.substringHits (Text.lower query) ranking Ranking.supplementWeight)
  else found

/-- The entries whose text starts with the query, topped up with those whose text contains it. -/
def prefixOrSubstringSearch? (i : Index) (query : String) (limit : Nat) (includeSubstring : Bool) (ranking : Ranking) :
    Option (List Entry) := do
  let found ← i.prefixSearch? query limit ranking
  if limit = 0 then return found
  else (Entry.sortByScore? (i.topUp query limit includeSubstring ranking found)).map (·.take limit)

/-- What a prefix search and a keyword search find, the preferred one first, if there is room for as many entries as
allowed. -/
def hybridSearch? (i : Index) (query : String) (limit : Nat) (preferPrefix : Bool) (ranking : Ranking) :
    Option (List Entry) := do
  let byPrefix ← i.prefixOrSubstringSearch? query limit false ranking
  let byWord ← i.keywordSearch? query limit ranking
  if preferPrefix then Entry.merge? byPrefix byWord limit else Entry.merge? byWord byPrefix limit

/-- How many nodes the trie has. -/
def counts (i : Index) : Trie.Counts := i.trie.counts

end Index

end Suggest
