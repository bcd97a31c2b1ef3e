/-
# Catalog records

A catalog has items, and parts that belong to an item. Read from a file, a record says by its member `kind` which of the
two it is; read otherwise, that is known.

| record | fields that must be there | fields that may be missing |
| --- | --- | --- |
| item | `id`, `name` | `slug`, `category_label` |
| part | `id`, `parent_id` | `name`, `code`, `parent_name`, `parent_slug` |

A missing text is empty, and a missing label is no label.
-/

import Suggest.Json.Record
import Suggest.Json.Writing

namespace Suggest
namespace Catalog

/-- A main record of a catalog. -/
structure Item where
  id : String
  name : String
  slug : String := ""
  categoryLabel : Option String := none
  deriving DecidableEq, Repr

/-- A record that belongs to an item. -/
structure Part where
  id : String
  name : String := ""
  code : String := ""
  parentId : String
  parentName : String := ""
  parentSlug : String := ""
  deriving DecidableEq, Repr

/-- A record of either kind. -/
inductive Record where
  | item (i : Item)
  | part (p : Part)
  deriving DecidableEq, Repr

/-- The records of a catalog, items and parts apart. -/
structure Records where
  items : List Item := []
  parts : List Part := []
  deriving DecidableEq, Repr

/-- How an item is read. -/
def Item.reader : Json.Reader Item :=
  Json.Fields.record
    (.cons (.required "id" .text) <|
      .cons (.required "name" .text) <|
      .cons (.defaulted "slug" .text "") <|
      .cons (.defaulted "category_label" (.optional .text) none) .nil)
    fun (id, name, slug, categoryLabel, ()) => ⟨id, name, slug, categoryLabel⟩

/-- How a part is read. -/
def Part.reader : Json.Reader Part :=
  Json.Fields.record
    (.cons (.required "id" .text) <|
      .cons (.defaulted "name" .text "") <|
      .cons (.defaulted "code" .text "") <|
      .cons (.required "parent_id" .text) <|
      .cons (.defaulted "parent_name" .text "") <|
      .cons (.defaulted "parent_slug" .text "") .nil)
    fun (id, name, code, parentId, parentName, parentSlug, ()) => ⟨id, name, code, parentId, parentName, parentSlug⟩

/-- An item in JSON. -/
def Item.write (i : Item) : List Char :=
  Json.object [
    ("id", Json.string i.id),
    ("name", Json.string i.name),
    ("slug", Json.string i.slug),
    ("category_label", match i.categoryLabel with
      | some label => Json.string label
      | none => Json.null)]

/-- A part in JSON. -/
def Part.write (p : Part) : List Char :=
  Json.object [
    ("id", Json.string p.id),
    ("name", Json.string p.name),
    ("code", Json.string p.code),
    ("parent_id", Json.string p.parentId),
    ("parent_name", Json.string p.parentName),
    ("parent_slug", Json.string p.parentSlug)]

namespace Record

/-- The two kinds of records. -/
inductive Kind where
  | item
  | part
  deriving DecidableEq, Repr

/-- The names of the kinds. -/
def kinds : List (String × Kind) := [("item", .item), ("part", .part)]

/-- How a record of a kind is read. -/
def readerOf : Kind → Json.Reader Record
  | .item => Item.reader.map .item
  | .part => Part.reader.map .part

/-- How a record is read that says its kind. -/
def reader : Json.Reader Record := Json.Tagged.read "kind" kinds readerOf

end Record

namespace Records

/-- The records with one more behind those of its kind. -/
def add (rs : Records) : Record → Records
  | .item i => { rs with items := rs.items ++ [i] }
  | .part p => { rs with parts := rs.parts ++ [p] }

/-- The records with more of them behind those of their kinds. -/
def addAll (rs : Records) (more : List Record) : Records := more.foldl add rs

/-- Put an item behind the others, in place of those with its identifier. -/
def upsertItem (rs : Records) (i : Item) : Records :=
  { rs with items := rs.items.filter (fun j => j.id ≠ i.id) ++ [i] }

/-- Put a part behind the others, in place of those with its identifier. -/
def upsertPart (rs : Records) (p : Part) : Records :=
  { rs with parts := rs.parts.filter (fun q => q.id ≠ p.id) ++ [p] }

/-- Take the items with an identifier away. -/
def removeItem (rs : Records) (id : String) : Records := { rs with items := rs.items.filter fun i => i.id ≠ id }

/-- Take the parts with an identifier away. -/
def removePart (rs : Records) (id : String) : Records := { rs with parts := rs.parts.filter fun p => p.id ≠ id }

end Records

end Catalog
end Suggest
