/-
# Request targets

A target is a path and a query. What stands behind a `#` belongs to neither, and a target that starts with a scheme has a
host in front of its path.

A query is a list of fields with `&` between them, empty ones not counted. A field is a name and a value with the first
`=` between them, or a name with an empty value. In both a plus sign is a space and `%` with two hexadecimal digits is a
byte; bytes that are no text are replaced.
-/

import Suggest.Text.Utf8

namespace Suggest
namespace Server

/-- A path, and the names and values of a query. -/
structure Target where
  path : String
  query : List (String × String)
  deriving DecidableEq, Repr

namespace Target

/-- What stands before and behind the first character of a kind, and nothing behind if there is none. -/
def cut (c : Char) (cs : List Char) : List Char × List Char := (cs.takeWhile (· ≠ c), (cs.dropWhile (· ≠ c)).drop 1)

/-- The value of a byte as a hexadecimal digit. -/
def hexDigit? (b : UInt8) : Option Nat :=
  let n := b.toNat
  if 48 ≤ n ∧ n ≤ 57 then some (n - 48)
  else if 97 ≤ n ∧ n ≤ 102 then some (n - 87)
  else if 65 ≤ n ∧ n ≤ 70 then some (n - 55)
  else none

/-- The bytes with every escape replaced by its byte, and every plus sign by a space. -/
def unescape : Bytes → Bytes
  | [] => []
  | b :: rest =>
    if b = 43 then 32 :: unescape rest
    else match b, rest with
      | 37, high :: low :: more =>
        match hexDigit? high, hexDigit? low with
        | some h, some l => UInt8.ofNat (h * 16 + l) :: unescape more
        | _, _ => 37 :: unescape (high :: low :: more)
      | b, rest => b :: unescape rest

/-- The text of a name or a value. -/
def plain (cs : List Char) : String := Text.lossy (unescape (Text.utf8 cs))

/-- The name and the value of a field. -/
def field (cs : List Char) : String × String := (plain (cut '=' cs).1, plain (cut '=' cs).2)

/-- The fields of a query. -/
def fields (cs : List Char) : List (String × String) :=
  ((cs.splitOn '&').filter fun field => !field.isEmpty).map field

/-- A target without its scheme and host. -/
def dropHost (cs : List Char) : List Char :=
  match cs with
  | '/' :: _ => cs
  | _ =>
    match (cut ':' cs).2 with
    | '/' :: '/' :: rest => rest.dropWhile fun c => c ≠ '/' ∧ c ≠ '?'
    | _ => cs

/-- The target that a text names. -/
def ofText (text : String) : Target :=
  let cs := dropHost (cut '#' text.toList).1
  ⟨String.ofList (cut '?' cs).1, fields (cut '?' cs).2⟩

/-- The values of the fields with a name. -/
def values (t : Target) (name : String) : List String := (t.query.filter fun f => f.1 = name).map Prod.snd

end Target

end Server
end Suggest
