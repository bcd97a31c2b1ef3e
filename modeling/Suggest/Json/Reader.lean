/-
# Readers

A reader makes a value of a type of its own out of a draft. It works through the draft in the order of the text and stops at
the first fault.
-/

import Suggest.Binary.Arithmetic
import Suggest.Json.Document

namespace Suggest
namespace Json

/-- How a value of a type is read. -/
abbrev Reader (α : Type) := Reading → Draft → Except Fault α

namespace Reader

variable {α β : Type}

/-- Read out of a value. -/
def ofValue (read : Reader α) (v : Value) : Except Fault α := read .value v.draft

/-- Read out of a text with nothing else in it. -/
def ofText (read : Reader α) (text : String) : Except Fault α :=
  (Document.scan (Text.glyphsOf text)).read (read .text)

/-- Read, and turn what was read into something else. -/
def map (f : α → β) (read : Reader α) : Reader β := fun r d => (read r d).map f

/-- A value of any kind. -/
def value : Reader Value := fun r d => d.value r

/-- A text. -/
def text : Reader String := fun _ d => d.text

/-- A truth value. -/
def bool : Reader Bool
  | _, .bool b => .ok b
  | _, d => .error d.mismatch

/-- An integer from zero to `limit`. -/
def natural (limit : Nat) : Reader Nat
  | _, .number ⟨.ok (.integer n), _⟩ => if 0 ≤ n ∧ n ≤ limit then .ok n.toNat else .error .mismatched
  | _, d => .error d.mismatch

/-- The greatest natural number with 64 bits. -/
def maxWord : Nat := 0xFFFFFFFFFFFFFFFF

/-- The number with 32 bits that is nearest to a JSON number. -/
def nearestSingle : Number → Single
  | .integer n => .ofInt n
  | .float x => x.convert

/-- A number with 32 bits. -/
def single : Reader Single
  | _, .number ⟨.ok n, _⟩ => .ok (nearestSingle n)
  | _, d => .error d.mismatch

/-- Something, or `null` for nothing. -/
def optional (read : Reader α) : Reader (Option α)
  | _, .null => .ok none
  | r, d => (read r d).map some

/-- A list of things. -/
def list (read : Reader α) : Reader (List α)
  | r, .array items stop => do
    let inner ← r.inside
    let items ← items.mapM (read inner)
    proceed stop
    return items
  | _, d => .error d.mismatch

/-- A map from names to things. Of two members with one name the last one counts. -/
def sortedMap (read : Reader α) : Reader (SortedMap String α)
  | r, .object members stop => do
    let inner ← r.inside
    let members ← members.mapM fun (k, d) => return (← k.name, ← read inner d)
    proceed stop
    return .ofList members
  | _, d => .error d.mismatch

/-- The only character of a text. -/
def onlyCharacter (text : String) : Except Fault Char :=
  match text.toList with
  | [c] => .ok c
  | _ => .error .mismatched

/-- A map from characters, each of them a name, to things. -/
def characterMap (read : Reader α) : Reader (SortedMap Char α)
  | r, .object members stop => do
    let inner ← r.inside
    let members ← members.mapM fun (k, d) => return (← onlyCharacter (← k.name), ← read inner d)
    proceed stop
    return .ofList members
  | _, d => .error d.mismatch

/-- What a known name stands for. -/
def known (names : List (String × α)) (name : String) : Except Fault α :=
  match names.lookup name with
  | some a => .ok a
  | none => .error .mismatched

/-- One of several named variants: its name, or an object with nothing but the name and `null`. -/
def variant (names : List (String × α)) : Reader α
  | _, .string s => do known names (← s.content)
  | _, .missing fault => .error fault
  | r, .object [] stop => do let _ ← r.inside; proceed stop; .error r.misplaced
  | r, .object ((k, d) :: more) stop => do
    let _ ← r.inside
    let a ← known names (← k.name)
    d.isNull
    if !more.isEmpty then .error r.misplaced
    proceed stop
    return a
  | r, _ => .error r.misplaced

end Reader

end Json
end Suggest
