/-
# Writing JSON

Texts are written without spaces (`objectLines` apart), members in the order they are given in. Writing is a matter of
putting written parts together: `Json.array` and `Json.object` take parts that are written already, so a record with
32-bit numbers in it is written with the same pieces as a value.

| what | written as |
| --- | --- |
| `"` and `\` | with a backslash before it |
| backspace, form feed, line feed, carriage return, tab | `\b` `\f` `\n` `\r` `\t` |
| the other characters below the space | `\u00` and two small hexadecimal digits |
| every other character | itself |
| an infinity or `nan` | `null` |
-/

import Suggest.Decimal.Layout
import Suggest.Json.Value

namespace Suggest
namespace Json

/-- A character of a string. -/
def escape (c : Char) : List Char :=
  if c = '"' then ['\\', '"']
  else if c = '\\' then ['\\', '\\']
  else if c = '\x08' then ['\\', 'b']
  else if c = '\x0c' then ['\\', 'f']
  else if c = '\n' then ['\\', 'n']
  else if c = '\r' then ['\\', 'r']
  else if c = '\t' then ['\\', 't']
  else if c.toNat < 0x20 then
    ['\\', 'u', '0', '0', Nat.digitChar (c.toNat / 16), Nat.digitChar (c.toNat % 16)]
  else [c]

/-- A string. -/
def string (s : String) : List Char := '"' :: (s.toList.flatMap escape ++ ['"'])

/-- A natural number. -/
def natural (n : Nat) : List Char := Nat.toDigits 10 n

/-- An integer. -/
def integer (n : Int) : List Char := if n < 0 then '-' :: natural n.natAbs else natural n.natAbs

/-- A truth value. -/
def bool (b : Bool) : List Char := if b then ['t', 'r', 'u', 'e'] else ['f', 'a', 'l', 's', 'e']

/-- The value that stands for nothing. -/
def null : List Char := ['n', 'u', 'l', 'l']

/-- A number of a binary format. -/
def binary {f : Format} (l : Layout) (x : Binary f) : List Char := (l.write? x).getD null

/-- A number with 32 bits. -/
def single (x : Single) : List Char := binary .single x

/-- A number with 64 bits. -/
def double (x : Double) : List Char := binary .double x

/-- Written parts with commas between them. -/
def separated : List (List Char) → List Char
  | [] => []
  | [part] => part
  | part :: rest => part ++ ',' :: separated rest

/-- An array of written items. -/
def array (items : List (List Char)) : List Char := '[' :: (separated items ++ [']'])

/-- A member with its written value. -/
def member (name : String) (value : List Char) : List Char := string name ++ ':' :: value

/-- An object of names and written values. -/
def object (members : List (String × List Char)) : List Char :=
  '{' :: (separated (members.map fun m => member m.1 m.2) ++ ['}'])

/-- An object of names and written values with a line for each member. -/
def objectLines (members : List (String × List Char)) : List Char :=
  let line (m : String × List Char) : List Char := '\n' :: ' ' :: ' ' :: (string m.1 ++ ':' :: ' ' :: m.2)
  if members.isEmpty then ['{', '}'] else '{' :: (separated (members.map line) ++ ['\n', '}'])

/-- A number. -/
def Number.write : Number → List Char
  | .integer n => Json.integer n
  | .float x => Json.double x

mutual

/-- A value. -/
def Value.write : Value → List Char
  | .null => Json.null
  | .bool b => Json.bool b
  | .number n => n.write
  | .string s => Json.string s
  | .array items => Json.array (writeItems items)
  | .object members => Json.object (writeMembers members)

/-- The values of a list. -/
def writeItems : List Value → List (List Char)
  | [] => []
  | v :: rest => v.write :: writeItems rest

/-- The values of a list of members, with their names. -/
def writeMembers : List (String × Value) → List (String × List Char)
  | [] => []
  | (name, v) :: rest => (name, v.write) :: writeMembers rest

end

/-- A text of written JSON. -/
def text (written : List Char) : String := String.ofList written

end Json
end Suggest
