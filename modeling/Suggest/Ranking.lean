/-
# Ranking

Scores are numbers with 32 bits. What a search strategy finds on the side is weighted down:

| found | weight |
| --- | ---: |
| by a longer word than the one asked for | 0.8 |
| by a word inside a text | 0.7 |
| inside a text, beside a prefix search | 0.8 |
| by the other strategy of a hybrid search | 0.9 |

A text found later in a longer text counts less: the factor falls from one in a straight line with the place of the first
match, and the slope is a setting.

An infinite score times zero is `nan`, which does not compare with any score. Then the scores may be in no order at all, and
entries that cannot be sorted are no answer (`Entry.sortByScore?`).
-/

import Suggest.Entry
import Suggest.RunSort

namespace Suggest

/-- What settles the order of prefix matches with one score. -/
inductive TieBreak where
  /-- How often texts ended at the queried prefix, which is the same for all matches, so they stay in the order of their
  texts. -/
  | queriedNode
  /-- How often texts ended where the match is stored. -/
  | resultNode
  deriving DecidableEq, Repr

/-- The settings of a ranking. -/
structure Ranking where
  tieBreak : TieBreak := .queriedNode
  positionDecay : Single := .ofRatio false 3 10
  preferPrefix : Bool := true
  deriving DecidableEq

namespace Ranking

/-- The weight of a longer word. -/
def longerWordWeight : Single := .ofRatio false 8 10

/-- The weight of a word inside a text. -/
def insideTextWeight : Single := .ofRatio false 7 10

/-- The weight of a text that a prefix search finds inside others. -/
def supplementWeight : Single := .ofRatio false 8 10

/-- The weight of what the other strategy finds. -/
def secondaryWeight : Single := .ofRatio false 9 10

/-- How much a match at the offset in a text of the length counts. -/
def positionFactor (r : Ranking) (offset length : Nat) : Single :=
  if length = 0 then .one
  else Binary.one.sub (((Binary.ofNat offset).div (Binary.ofNat length)).mul r.positionDecay)

/-- The names of the tie breaks. -/
def tieBreaks : List (String × TieBreak) := [("queried_node", .queriedNode), ("result_node", .resultNode)]

/-- The name of a tie break. -/
def tieBreakName : TieBreak → String
  | .queriedNode => "queried_node"
  | .resultNode => "result_node"

theorem lookup_tieBreakName (t : TieBreak) : tieBreaks.lookup (tieBreakName t) = some t := by
  cases t <;> decide

/-- How settings of a ranking are read. -/
def reader : Json.Reader Ranking :=
  Json.Fields.record
    (.cons (.required "prefix_ranking" (.variant tieBreaks)) <|
      .cons (.required "position_decay" .single) <|
      .cons (.required "prefer_prefix" .bool) .nil)
    fun (tieBreak, positionDecay, preferPrefix, ()) => ⟨tieBreak, positionDecay, preferPrefix⟩

/-- Settings of a ranking in JSON. -/
def write (r : Ranking) : List Char :=
  Json.object [
    ("prefix_ranking", Json.string (tieBreakName r.tieBreak)),
    ("position_decay", Json.single r.positionDecay),
    ("prefer_prefix", Json.bool r.preferPrefix)]

end Ranking

/-- The order in which two scores stand: the higher one first, and those that do not compare are level. -/
def compareScores (a b : Single) : Ordering :=
  if b.less a then .lt else if a.less b then .gt else .eq

namespace Entry

/-- Whether an entry has the higher score. -/
def higher (a b : Entry) : Bool := b.score.less a.score

/-- How many bytes an entry takes. -/
def size : Nat := 112

/-- Entries by falling score, otherwise in their own order, if they can be sorted. -/
def sortByScore? (entries : List Entry) : Option (List Entry) := RunSort.sort? size higher entries

/-- Sorting keeps every entry. -/
theorem perm_sortByScore? {entries sorted : List Entry} (h : sortByScore? entries = some sorted) :
    sorted.Perm entries := RunSort.perm_sort? h

/-- Append an entry, unless there are as many as allowed or one with its key is there. -/
def offer (limit : Nat) (entries : List Entry) (e : Entry) : List Entry :=
  if entries.length < limit then pushUnique entries e else entries

/-- The entries of the first list, and behind them those that only the second one has, at a lower weight. Of each key the
first entry counts, and no more than `limit` are taken. -/
def merge (primary secondary : List Entry) (limit : Nat) : List Entry :=
  (secondary.map fun e => e.scaled Ranking.secondaryWeight).foldl (offer limit) (primary.foldl (offer limit) [])

/-- How many entries there is room for: all of them together take less than `2 ^ 63` bytes. -/
def maxRoom : Nat := 0x7FFFFFFFFFFFFFFF / size

/-- The merged entries. The room for them is taken in advance, so there are none if the limit is too high. -/
def merge? (primary secondary : List Entry) (limit : Nat) : Option (List Entry) :=
  if limit ≤ maxRoom then some (merge primary secondary limit) else none

theorem merge?_eq_some_iff {primary secondary found : List Entry} {limit : Nat} :
    merge? primary secondary limit = some found ↔ limit ≤ maxRoom ∧ merge primary secondary limit = found := by
  simp [merge?]

theorem length_offer_le {limit : Nat} {entries : List Entry} (h : entries.length ≤ limit) (e : Entry) :
    (offer limit entries e).length ≤ limit := by
  rw [offer]
  split
  · rw [pushUnique]
    split
    · exact h
    · simp only [List.length_append, List.length_singleton]; omega
  · exact h

end Entry

end Suggest
