/-
# Entries

An entry is what a search finds: the text of one field of a record, with the record's identifier and the category of the
field. Two entries are the same if identifier and category agree, whatever else they say, so of several entries with one
key only the first is kept (`pushUnique`).

In JSON an entry is a record with the fields `id`, `text`, `category`, `score` and `metadata` in this order. The category
also goes by the name `type`, the score is one if it is left out, and metadata is anything, or nothing.
-/

import Suggest.Json.Record
import Suggest.Json.Writing

namespace Suggest

/-- What an entry says about the record it comes from. -/
abbrev Metadata := SortedMap String Json.Value

/-- A searchable text of a record. -/
structure Entry where
  id : String
  text : String
  category : String
  score : Single := .one
  metadata : Option Metadata := none
  deriving DecidableEq

namespace Entry

/-- What tells entries apart. -/
structure Key where
  id : String
  category : String
  deriving DecidableEq, Repr

/-- The key of an entry. -/
def key (e : Entry) : Key := ⟨e.id, e.category⟩

/-- The entry with its score multiplied by a factor. -/
def scaled (e : Entry) (factor : Single) : Entry := { e with score := e.score.mul factor }

@[simp] theorem key_scaled (e : Entry) (factor : Single) : (e.scaled factor).key = e.key := rfl

/-- Whether an entry with the key is among the entries. -/
def occurs (key : Key) (entries : List Entry) : Bool := entries.any fun e => e.key = key

theorem occurs_iff {k : Key} {entries : List Entry} : occurs k entries = true ↔ k ∈ entries.map key := by
  simp [occurs]

/-- Append an entry, unless one with its key is there. -/
def pushUnique (entries : List Entry) (e : Entry) : List Entry :=
  if occurs e.key entries then entries else entries ++ [e]

/-- Append entries one after the other, each unless one with its key is there. -/
def pushAll (entries more : List Entry) : List Entry := more.foldl pushUnique entries

/-- Distinct keys stay distinct. -/
theorem nodup_pushUnique {entries : List Entry} (h : (entries.map key).Nodup) (e : Entry) :
    ((pushUnique entries e).map key).Nodup := by
  rw [pushUnique]
  split
  · exact h
  · next hk =>
    rw [occurs_iff] at hk
    rw [List.map_append, List.nodup_append]
    refine ⟨h, by simp, ?_⟩
    rintro a ha b hb rfl
    simp only [List.map_cons, List.map_nil, List.mem_singleton] at hb
    exact hk (hb ▸ ha)

/-- The keys after an append are the old ones and the new one. -/
theorem mem_keys_pushUnique {entries : List Entry} {e : Entry} {k : Key} :
    k ∈ (pushUnique entries e).map key ↔ k ∈ entries.map key ∨ k = e.key := by
  rw [pushUnique]
  split
  · next hk =>
    rw [occurs_iff] at hk
    exact ⟨.inl, fun h => h.elim (fun h => h) (· ▸ hk)⟩
  · simp

/-- How an entry is read. -/
def reader : Json.Reader Entry :=
  Json.Fields.record
    (.cons (.required "id" .text) <|
      .cons (.required "text" .text) <|
      .cons ((Json.Field.required "category" .text).named "type") <|
      .cons (.defaulted "score" .single .one) <|
      .cons (.defaulted "metadata" (.optional (.sortedMap .value)) none) .nil)
    fun (id, text, category, score, metadata, ()) => ⟨id, text, category, score, metadata⟩

/-- An object of metadata. -/
def writeMetadata (metadata : Metadata) : List Char := (Json.Value.object metadata.toList).write

/-- An entry in JSON. -/
def write (e : Entry) : List Char :=
  Json.object [
    ("id", Json.string e.id),
    ("text", Json.string e.text),
    ("category", Json.string e.category),
    ("score", Json.single e.score),
    ("metadata", match e.metadata with
      | some metadata => writeMetadata metadata
      | none => Json.null)]

end Entry

end Suggest
