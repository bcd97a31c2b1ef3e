/-
# Lines

A line ends with a line feed, and the last one may do without. A carriage return in front of the line feed belongs to the
end of the line.
-/

import Suggest.Text.Utf8

namespace Suggest
namespace Text

/-- The lines of a content, without their ends. -/
def lines (content : Bytes) : List Bytes :=
  match content.splitOn 10 with
  | [] => []
  | parts =>
    (parts.dropLast.map fun line => if line.getLast? = some 13 then line.dropLast else line) ++
      (if parts.getLastD [] = [] then [] else [parts.getLastD []])

/-- A text of lines. -/
def unlines (lines : List String) : String := String.join (lines.map (· ++ "\n"))

end Text
end Suggest
