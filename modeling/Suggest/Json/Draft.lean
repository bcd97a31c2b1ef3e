/-
# Drafts of values

A draft is what a reader finds where a value should stand: everything the text says there, up to the first place where it
breaks off, and nothing decided yet about what is wanted. The same draft can be skipped, read as a value, or read as a
record, and each reader reports the first fault that it comes across on its own way:

| reader | does not look at |
| --- | --- |
| `skip` | the content of strings, the size of numbers, how deep the text nests |
| `value` | nothing |
| `text`, `null` | what stands inside a container that is no text |

Members keep the order and the repetitions of the text, and the draft of a member's name may be of any kind, since it
depends on the reader what a wrong name means.

A value may also be embedded: an object whose first member has the name `embeddedName` stands for the value that the text of
this member is the document of. Such an object has no other members, and whatever is wrong with the document is a mismatch.

Where a draft comes from makes a difference to those who read it, and `Reading` says which:

| | out of a text | out of a value |
| --- | --- | --- |
| containers that may still be entered | counted | not counted |
| more items or members than there is something to read for | `malformed` | `mismatched` |
| no variant where one is wanted | `malformed` | `mismatched` |
-/

import Suggest.Json.Fault
import Suggest.Json.Value
import Suggest.SortedMap

namespace Suggest
namespace Json

/-- What a piece of text stands for, and what is wrong with its spelling, which is all that matters to a reader that
skips it. -/
structure Lexeme (α : Type) where
  content : Except Fault α
  stop : Option Fault

/-- What stands in the place of a value. -/
inductive Draft where
  /-- Nothing that starts a value. -/
  | missing (fault : Fault)
  /-- The start of a word that goes on wrongly. -/
  | word (fault : Fault)
  | null
  | bool (b : Bool)
  | number (n : Lexeme Number)
  | string (s : Lexeme String)
  | array (items : List Draft) (stop : Option Fault)
  | object (members : List (Draft × Draft)) (stop : Option Fault)

/-- What comes after a piece of text, unless the text stops there. -/
def proceed : Option Fault → Except Fault Unit
  | none => .ok ()
  | some fault => .error fault

/-- How many more containers may be entered from inside one more, unless there is no room for it. Without a number
there always is. -/
def enter : Option Nat → Except Fault (Option Nat)
  | none => .ok none
  | some 0 => .error .malformed
  | some (room + 1) => .ok (some room)

/-- How many more containers may be entered, what two kinds of misuse are called, and what the text of an embedded value
stands for, if values may be embedded. -/
structure Reading where
  room : Option Nat
  surplus : Fault
  misplaced : Fault
  embedded : Option (String → Except Fault Value)

namespace Reading

/-- Reading inside a container. -/
def inside (r : Reading) : Except Fault Reading := do return { r with room := ← enter r.room }

/-- Reading where no values are embedded. -/
def plainly (r : Reading) : Reading := { r with embedded := none }

end Reading

/-- The name of the member whose text is the document of an embedded value. -/
def embeddedName : String := "$serde_json::private::RawValue"

namespace Draft

instance : Inhabited Draft := ⟨.null⟩

/-- What a reader reports that wants a value of another kind. -/
def mismatch : Draft → Fault
  | .missing fault | .word fault => fault
  | .number ⟨.error fault, _⟩ | .string ⟨.error fault, _⟩ => fault
  | _ => .mismatched

/-- The text of a string. -/
def text : Draft → Except Fault String
  | .string s => s.content
  | d => .error d.mismatch

/-- The name of a member: a text, and nothing else is JSON there. -/
def name : Draft → Except Fault String
  | .string s => s.content
  | .missing fault => .error fault
  | _ => .error .malformed

/-- The value that stands for nothing. -/
def isNull : Draft → Except Fault Unit
  | .null => .ok ()
  | d => .error d.mismatch

/-- The spelling of a member's name. -/
def skipName : Draft → Except Fault Unit
  | .string s => proceed s.stop
  | .missing fault => .error fault
  | _ => .error .malformed

end Draft

mutual

/-- Pass over a draft. -/
def Draft.skip : Draft → Except Fault Unit
  | .missing fault | .word fault => .error fault
  | .null | .bool _ => .ok ()
  | .number n => proceed n.stop
  | .string s => proceed s.stop
  | .array items stop => do skipItems items; proceed stop
  | .object members stop => do skipMembers members; proceed stop

/-- Pass over the items of an array. -/
def skipItems : List Draft → Except Fault Unit
  | [] => .ok ()
  | d :: rest => do d.skip; skipItems rest

/-- Pass over the members of an object. -/
def skipMembers : List (Draft × Draft) → Except Fault Unit
  | [] => .ok ()
  | (k, d) :: rest => do k.skipName; d.skip; skipMembers rest

end

/-- The value that members stand for because it is embedded in them. -/
def embeddedValue (r : Reading) : List (Draft × Draft) → Except Fault (Option Value)
  | [] => .ok none
  | (k, d) :: more =>
    match r.embedded with
    | none => .ok none
    | some read => do
      if (← k.name) ≠ embeddedName then return none
      let v ← (read (← d.text)).mapError fun _ => .mismatched
      if more.isEmpty then return some v else .error r.surplus

mutual

/-- The value of a draft. Of the members with one name the last one counts. -/
def Draft.value (r : Reading) : Draft → Except Fault Value
  | .missing fault | .word fault => .error fault
  | .null => .ok .null
  | .bool b => .ok (.bool b)
  | .number n => n.content.map .number
  | .string s => s.content.map .string
  | .array items stop => do
    let items ← valueItems (← r.inside) items
    proceed stop
    return .array items
  | .object members stop => do
    let inner ← r.inside
    match ← embeddedValue inner members with
    | some v =>
      proceed stop
      return v
    | none =>
      let members ← valueMembers inner members
      proceed stop
      return .object (SortedMap.ofList members).toList

/-- The values of the items of an array. -/
def valueItems (r : Reading) : List Draft → Except Fault (List Value)
  | [] => .ok []
  | d :: rest => do return (← d.value r) :: (← valueItems r rest)

/-- The names and values of the members of an object, in the order of the text. -/
def valueMembers (r : Reading) : List (Draft × Draft) → Except Fault (List (String × Value))
  | [] => .ok []
  | (k, d) :: rest => do return (← k.name, ← d.value r) :: (← valueMembers r rest)

end

/-- A text without faults. -/
def Draft.ofText (s : String) : Draft := .string ⟨.ok s, none⟩

mutual

/-- The draft of a value, as a text without faults would have it. -/
def Value.draft : Value → Draft
  | .null => .null
  | .bool b => .bool b
  | .number n => .number ⟨.ok n, none⟩
  | .string s => .ofText s
  | .array items => .array (draftItems items) none
  | .object members => .object (draftMembers members) none

/-- The drafts of the items of an array. -/
def draftItems : List Value → List Draft
  | [] => []
  | v :: rest => v.draft :: draftItems rest

/-- The drafts of the members of an object. -/
def draftMembers : List (String × Value) → List (Draft × Draft)
  | [] => []
  | (name, v) :: rest => (.ofText name, v.draft) :: draftMembers rest

end

end Json
end Suggest
