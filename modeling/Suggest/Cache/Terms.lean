/-
# The terms of a cache folder

A cache is kept on terms, which a file in its folder says: lines with a name and a value, and four more bytes, which
nobody looks at.

| name | value |
| --- | --- |
| `segment_size` | how many bytes are written at a time |
| `use_compression` | whether what is kept is compressed, `true` or `false` |
| `version` | the version of the format, two numbers with a point between them |

All three names are needed. Of several lines with one name the last one counts, and lines with other names do not count,
but every line has a value. A file of no more than 8 bytes says nothing. The terms of this program are read back as they
are written (`ofBytes?_bytes`).
-/

import Suggest.Text.Line
import Suggest.Text.Natural

namespace Suggest
namespace CacheFolder

/-- What a cache is kept on; by default, what this program keeps caches on. -/
structure Terms where
  segmentBytes : Nat := 0x80000
  compressed : Bool := false
  version : Nat × Nat := (0, 34)
  deriving DecidableEq, Repr

namespace Terms

/-- How many bytes say nothing. -/
def silentBytes : Nat := 8

/-- How many bytes at the end nobody looks at. -/
def sealBytes : Nat := 4

/-- The greatest number in the terms. -/
def greatest : Nat := 0xFFFFFFFFFFFFFFFF

/-- The text of a choice. -/
def choiceText (b : Bool) : String := if b then "true" else "false"

/-- The choice of a text. -/
def choice? (text : String) : Option Bool :=
  if text = "true" then some true else if text = "false" then some false else none

/-- The version of a text; what stands behind a second point does not count. -/
def version? (text : String) : Option (Nat × Nat) :=
  match text.toList.splitOn '.' with
  | major :: minor :: _ =>
    return (← Text.natural? greatest (String.ofList major), ← Text.natural? greatest (String.ofList minor))
  | _ => none

/-- What stands in front of the first colon that has a space behind it, and what stands behind the two. -/
def cut? : List Char → Option (List Char × List Char)
  | [] => none
  | ':' :: ' ' :: rest => some ([], rest)
  | c :: rest => (cut? rest).map fun parts => (c :: parts.1, parts.2)

/-- The name and the value on a line; what stands behind a second colon with a space does not count. -/
def member? (line : Bytes) : Option (String × String) := do
  let (name, rest) ← cut? (← Text.text? line).toList
  return (String.ofList name, String.ofList ((cut? rest).elim rest Prod.fst))

/-- The terms that names and values stand for. -/
def ofMembers? (members : List (String × String)) : Option Terms := do
  let segmentBytes ← Text.natural? greatest (← members.lookup "segment_size")
  let compressed ← choice? (← members.lookup "use_compression")
  let version ← version? (← members.lookup "version")
  return { segmentBytes, compressed, version }

/-- The terms that a file says. -/
def ofBytes? (content : Bytes) : Option Terms := do
  let members ← (Text.lines (content.take (content.length - sealBytes))).mapM member?
  ofMembers? members.reverse

/-- The file that says the terms. -/
def bytes (t : Terms) : Bytes :=
  Text.bytes (Text.unlines [
    "segment_size: " ++ toString t.segmentBytes,
    "use_compression: " ++ choiceText t.compressed,
    "version: " ++ toString t.version.1 ++ "." ++ toString t.version.2]) ++ List.replicate sealBytes 0xFF

/-- What is in the way of keeping a cache on other terms than this program does. -/
def complaint? (t : Terms) : Option String :=
  if t.compressed ≠ ({} : Terms).compressed then
    some ("cannot change compression values across restarts. old value of use_compression loaded from disk: " ++
      choiceText t.compressed ++ ", currently set value: " ++ choiceText ({} : Terms).compressed ++ ".")
  else if t.segmentBytes ≠ ({} : Terms).segmentBytes then
    some "cannot change the io buffer size across restarts."
  else if t.version ≠ ({} : Terms).version then
    some "The stored database must use a compatible sled version."
  else none

/-- Nothing is in the way of the terms of this program only. -/
theorem complaint?_eq_none_iff {t : Terms} : t.complaint? = none ↔ t = {} := by
  obtain ⟨segmentBytes, compressed, version⟩ := t
  unfold complaint?
  repeat' split
  all_goals simp_all

/-- The terms of this program are read back as they are written. -/
theorem ofBytes?_bytes : ofBytes? ({} : Terms).bytes = some {} := by
  decide +kernel

/-- They are said. -/
theorem silentBytes_lt_length_bytes : silentBytes < ({} : Terms).bytes.length := by
  decide +kernel

end Terms

end CacheFolder
end Suggest
