/-
# JSON values

A value as programs keep it: numbers are integers or 64-bit floats, and the members of an object are a list. Values that
come out of a document list the members of each object in ascending order of names, every name once (`Json.Draft`).
-/

import Suggest.Binary.Basic

namespace Suggest
namespace Json

/-- A JSON number: an integer, as far as it fits 64 bits, or a float. -/
inductive Number where
  | integer (n : Int)
  | float (x : Double)
  deriving DecidableEq

/-- A JSON value. -/
inductive Value where
  | null
  | bool (b : Bool)
  | number (n : Number)
  | string (s : String)
  | array (items : List Value)
  | object (members : List (String × Value))

namespace Value

instance : Inhabited Value := ⟨.null⟩

/-- A number that counts something. -/
def ofNat (n : Nat) : Value := .number (.integer n)

/-- The value of the first member with the name. -/
def member? (name : String) : Value → Option Value
  | .object members => members.lookup name
  | _ => none

end Value

mutual

/-- Whether two values are the same. -/
def Value.same : Value → Value → Bool
  | .null, .null => true
  | .bool a, .bool b => a = b
  | .number a, .number b => a = b
  | .string a, .string b => a = b
  | .array a, .array b => sameItems a b
  | .object a, .object b => sameMembers a b
  | _, _ => false

/-- Whether two lists of values are the same. -/
def sameItems : List Value → List Value → Bool
  | [], [] => true
  | v :: a, w :: b => v.same w && sameItems a b
  | _, _ => false

/-- Whether two lists of members are the same. -/
def sameMembers : List (String × Value) → List (String × Value) → Bool
  | [], [] => true
  | (k, v) :: a, (l, w) :: b => k = l && v.same w && sameMembers a b
  | _, _ => false

end

mutual

theorem Value.same_iff : ∀ v w : Value, v.same w = true ↔ v = w
  | .null, w => by cases w <;> simp [Value.same]
  | .bool a, w => by cases w <;> simp [Value.same]
  | .number a, w => by cases w <;> simp [Value.same]
  | .string a, w => by cases w <;> simp [Value.same]
  | .array a, w => by cases w <;> simp [Value.same, sameItems_iff a]
  | .object a, w => by cases w <;> simp [Value.same, sameMembers_iff a]

theorem sameItems_iff : ∀ a b : List Value, sameItems a b = true ↔ a = b
  | [], b => by cases b <;> simp [sameItems]
  | v :: a, b => by cases b <;> simp [sameItems, Value.same_iff v, sameItems_iff a]

theorem sameMembers_iff : ∀ a b : List (String × Value), sameMembers a b = true ↔ a = b
  | [], b => by cases b <;> simp [sameMembers]
  | (k, v) :: a, b => by
    cases b with
    | nil => simp [sameMembers]
    | cons m b => obtain ⟨l, w⟩ := m; simp [sameMembers, Value.same_iff v, sameMembers_iff a]

end

instance : DecidableEq Value := fun v w => decidable_of_iff _ (Value.same_iff v w)

mutual

/-- How deep the containers of a value are nested. -/
def Value.depth : Value → Nat
  | .array items => depthOfItems items + 1
  | .object members => depthOfMembers members + 1
  | _ => 0

/-- The deepest nesting in a list of values. -/
def depthOfItems : List Value → Nat
  | [] => 0
  | v :: rest => max v.depth (depthOfItems rest)

/-- The deepest nesting in a list of members. -/
def depthOfMembers : List (String × Value) → Nat
  | [] => 0
  | (_, v) :: rest => max v.depth (depthOfMembers rest)

end

end Json
end Suggest
