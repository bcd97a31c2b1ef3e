/-
# Reading records

A record is a list of fields, and it is written in one of two ways: as an object with the fields as members in any order,
or as an array with the fields as items in their own order, the last ones of which may be left out if they have a value
of their own for that.

| in an object | what becomes of it |
| --- | --- |
| a member whose name is unknown | skipped, or refused by a strict record |
| a second member for a field | `mismatched`, before its value is read |
| a field without a member | its value for that, or else `mismatched`, after the end of the object |

The fields of a record are read into slots, one for each field, and a record is complete when every slot is filled.
-/

import Suggest.Json.Reader

namespace Suggest
namespace Json

/-- A field: the names it goes by, how it is read, and the value it has if it is left out. -/
structure Field (α : Type) where
  names : List String
  read : Reader α
  absent : Option α

namespace Field

variable {α : Type}

/-- A field that may not be left out. -/
def required (name : String) (read : Reader α) : Field α := ⟨[name], read, none⟩

/-- A field that may be left out. -/
def defaulted (name : String) (read : Reader α) (absent : α) : Field α := ⟨[name], read, some absent⟩

/-- The same field under another name as well. -/
def named (f : Field α) (name : String) : Field α := { f with names := f.names ++ [name] }

/-- The value of a field that is left out. -/
def leftOut (f : Field α) : Except Fault α :=
  match f.absent with
  | some a => .ok a
  | none => .error .mismatched

end Field

/-- The fields of a record, the type of their slots and the type of their values. -/
inductive Fields : Type → Type → Type 1 where
  | nil : Fields Unit Unit
  | cons {α σ τ : Type} (field : Field α) (rest : Fields σ τ) : Fields (Option α × σ) (α × τ)

namespace Fields

/-- Slots that nothing was read into. -/
def vacant : {σ τ : Type} → Fields σ τ → σ
  | _, _, .nil => ()
  | _, _, .cons _ rest => (none, rest.vacant)

/-- Read the draft into the slot of the field with the name, unless there is no such field. -/
def place (r : Reading) (name : String) (d : Draft) :
    {σ τ : Type} → Fields σ τ → σ → Except Fault (Option σ)
  | _, _, .nil, () => .ok none
  | _, _, .cons field rest, (slot, slots) =>
    if field.names.contains name then
      if slot.isSome then .error .mismatched
      else (field.read r d).map fun a => some (some a, slots)
    else (rest.place r name d slots).map fun placed => placed.map (slot, ·)

/-- The values of all fields, once nothing more is to be read. -/
def complete : {σ τ : Type} → Fields σ τ → σ → Except Fault τ
  | _, _, .nil, () => .ok ()
  | _, _, .cons field rest, (slot, slots) => do
    let a ← match slot with
      | some a => .ok a
      | none => field.leftOut
    return (a, ← rest.complete slots)

/-- Read members into their slots. -/
def placeMembers (strict : Bool) (r : Reading) {σ τ : Type} (fields : Fields σ τ) :
    List (Draft × Draft) → σ → Except Fault σ
  | [], slots => .ok slots
  | (k, d) :: rest, slots => do
    match ← fields.place r (← k.name) d slots with
    | some slots => fields.placeMembers strict r rest slots
    | none =>
      if strict then .error .mismatched
      else do d.skip; fields.placeMembers strict r rest slots

/-- Read items as fields in their order, and give back the items that are left. -/
def readItems (r : Reading) (stop : Option Fault) :
    {σ τ : Type} → Fields σ τ → List Draft → Except Fault (τ × List Draft)
  | _, _, .nil, items => .ok ((), items)
  | _, _, .cons field rest, [] => do
    proceed stop
    let a ← field.leftOut
    let (values, left) ← rest.readItems r stop []
    return ((a, values), left)
  | _, _, .cons field rest, d :: items => do
    let a ← field.read r d
    let (values, left) ← rest.readItems r stop items
    return ((a, values), left)

/-- Read a record, and make something of its values. -/
def read {σ τ α : Type} (fields : Fields σ τ) (strict : Bool) (make : τ → Except Fault α) : Reader α
  | r, .object members stop => do
    let slots ← fields.placeMembers strict (← r.inside) members fields.vacant
    proceed stop
    make (← fields.complete slots)
  | r, .array items stop => do
    let (values, left) ← fields.readItems (← r.inside) stop items
    let a ← make values
    if !left.isEmpty then .error r.surplus
    proceed stop
    return a
  | _, d => .error d.mismatch

/-- A record that skips members it does not know. -/
def record {σ τ α : Type} (fields : Fields σ τ) (make : τ → α) : Reader α :=
  fields.read false fun values => .ok (make values)

end Fields

/-- What the members of a tagged record say: its kind, once that is known, and all other members. -/
structure Tagged (κ : Type) where
  kind : Option κ
  others : List (String × Value)

namespace Tagged

variable {κ α : Type}

/-- Read the members of a tagged record in the order of the text. -/
def ofMembers (tag : String) (kinds : List (String × κ)) (r : Reading) :
    Option κ → List (Draft × Draft) → Except Fault (Tagged κ)
  | kind, [] => .ok ⟨kind, []⟩
  | kind, (k, d) :: rest => do
    let name ← k.name
    if name = tag then
      if kind.isSome then .error .mismatched
      else ofMembers tag kinds r (some (← Reader.known kinds (← d.text))) rest
    else
      let v ← d.value r.plainly
      let tagged ← ofMembers tag kinds r kind rest
      return { tagged with others := (name, v) :: tagged.others }

/-- Read a record whose kind is one of its members, or the first of its items. Everything else is read as values first, none
of which is embedded, and then as a record of that kind. -/
def read (tag : String) (kinds : List (String × κ)) (variant : κ → Reader α) : Reader α
  | r, .object members stop => do
    let tagged ← ofMembers tag kinds (← r.inside) none members
    proceed stop
    match tagged.kind with
    | some kind => variant kind .value (.object (draftMembers tagged.others) none)
    | none => .error .mismatched
  | r, .array [] stop => do let _ ← r.inside; proceed stop; .error .mismatched
  | r, .array (d :: items) stop => do
    let inner ← r.inside
    let kind ← Reader.known kinds (← d.text)
    let items ← valueItems inner.plainly items
    proceed stop
    variant kind .value (.array (draftItems items) none)
  | _, d => .error d.mismatch

end Tagged

end Json
end Suggest
