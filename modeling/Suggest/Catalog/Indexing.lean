/-
# Indexing a catalog

Every field of a record that is searched for and not empty becomes an entry under its own text. The entry carries the
record's identifier, the category of the field, and the rest of the record as metadata:

| field | category | metadata |
| --- | --- | --- |
| name of an item | `item` | `slug`, `category_label` |
| slug of an item | `item-key` | `name`, `category_label` |
| name of a part | `part` | `code`, `parent_id`, `parent_name`, `parent_slug` |
| code of a part | `part-key` | `part_name`, `parent_id`, `parent_name`, `parent_slug` |

Items come before parts, and both in the order of the catalog.
-/

import Suggest.Catalog.Record
import Suggest.Index

namespace Suggest
namespace Catalog

/-- A label, or `null` where there is none. -/
def labelValue : Option String → Json.Value
  | some label => .string label
  | none => .null

/-- The entry for a field that is not empty. -/
def fieldEntry (id text category : String) (metadata : List (String × Json.Value)) : List Entry :=
  if text.isEmpty then [] else [{ id, text, category, metadata := some (.ofList metadata) }]

/-- The entries of an item. -/
def Item.entries (i : Item) : List Entry :=
  fieldEntry i.id i.name "item" [("slug", .string i.slug), ("category_label", labelValue i.categoryLabel)] ++
    fieldEntry i.id i.slug "item-key" [("name", .string i.name), ("category_label", labelValue i.categoryLabel)]

/-- What an entry of a part says about the item that the part belongs to. -/
def Part.parent (p : Part) : List (String × Json.Value) :=
  [("parent_id", .string p.parentId), ("parent_name", .string p.parentName), ("parent_slug", .string p.parentSlug)]

/-- The entries of a part. -/
def Part.entries (p : Part) : List Entry :=
  fieldEntry p.id p.name "part" (p.parent ++ [("code", .string p.code)]) ++
    fieldEntry p.id p.code "part-key" (p.parent ++ [("part_name", .string p.name)])

/-- The entries of a catalog. -/
def Records.entries (rs : Records) : List Entry := rs.items.flatMap Item.entries ++ rs.parts.flatMap Part.entries

/-- How many records were indexed, and as how many entries. -/
structure Report where
  items : Nat
  parts : Nat
  entries : Nat
  deriving DecidableEq, Repr

/-- What indexing a catalog reports. -/
def Records.report (rs : Records) : Report := ⟨rs.items.length, rs.parts.length, rs.entries.length⟩

/-- The index of a catalog. -/
def Records.index (rs : Records) : Index := rs.entries.foldl (fun i e => i.insert e.text e) ∅

end Catalog
end Suggest
