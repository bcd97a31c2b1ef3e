/-
# Changes of a catalog

A change says which record was created, updated or deleted. It makes an index out of date whatever it says.
-/

import Suggest.Json.Record
import Suggest.Json.Writing

namespace Suggest

/-- What kind of record a change is about. -/
inductive Change.Entity where
  | item
  | part
  deriving DecidableEq, Repr

/-- What happened to a record. -/
inductive Change.Operation where
  | created
  | updated
  | deleted
  deriving DecidableEq, Repr

/-- A change of one record. -/
structure Change where
  entity : Change.Entity
  entityId : String
  operation : Change.Operation
  deriving DecidableEq, Repr

namespace Change

/-- The names of the kinds of records. -/
def entities : List (String × Entity) := [("item", .item), ("part", .part)]

/-- The name of a kind of record. -/
def Entity.name : Entity → String
  | .item => "item"
  | .part => "part"

/-- The names of the operations. -/
def operations : List (String × Operation) := [("created", .created), ("updated", .updated), ("deleted", .deleted)]

/-- The name of an operation. -/
def Operation.name : Operation → String
  | .created => "created"
  | .updated => "updated"
  | .deleted => "deleted"

theorem lookup_entity_name (e : Entity) : entities.lookup e.name = some e := by cases e <;> decide

theorem lookup_operation_name (o : Operation) : operations.lookup o.name = some o := by cases o <;> decide

/-- How a change is read. -/
def reader : Json.Reader Change :=
  Json.Fields.record
    (.cons (.required "entity" (.variant entities)) <|
      .cons (.required "entity_id" .text) <|
      .cons (.required "operation" (.variant operations)) .nil)
    fun (entity, entityId, operation, ()) => ⟨entity, entityId, operation⟩

/-- A change in JSON. -/
def write (c : Change) : List Char :=
  Json.object [
    ("entity", Json.string c.entity.name),
    ("entity_id", Json.string c.entityId),
    ("operation", Json.string c.operation.name)]

end Change

end Suggest
