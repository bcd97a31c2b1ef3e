/-
# File trees

Files and folders by path. A path is the list of names that lead there, so the order of the paths is the order in which
one walks the tree when every folder comes before what is in it and the names in a folder are sorted. Paths from the root
of all files have a slash in front, which is the name of nothing in the tree, and paths out of the top folder have two
points for each folder around it.
-/

import Suggest.SortedMap
import Suggest.Text.Utf8

namespace Suggest

/-- What stands at a path. -/
inductive FileTree.Entry where
  | file (content : Bytes)
  | folder
  deriving DecidableEq

/-- Files and folders by path; the top folder has the empty path and is always there. -/
structure FileTree where
  entries : SortedMap (List String) FileTree.Entry := ∅

namespace FileTree

instance : Inhabited FileTree := ⟨{}⟩

/-- The text of a path. -/
def textOf : List String → String
  | "/" :: names => "/" ++ "/".intercalate names
  | names => "/".intercalate ("." :: names)

/-- Whether there is a folder at the path. The top folder, the folders around it and the root of all files are folders. -/
def isFolder (t : FileTree) (path : List String) : Bool :=
  path.all (· = "..") || path = ["/"] || t.entries.get? path = some .folder

/-- Whether anything is at the path. -/
def occupied (t : FileTree) (path : List String) : Bool := t.isFolder path || (t.entries.get? path).isSome

/-- The content of the file at the path. -/
def content? (t : FileTree) (path : List String) : Option Bytes :=
  match t.entries.get? path with
  | some (.file content) => some content
  | _ => none

/-- Put a folder at a path, unless something is there. -/
def addFolder (t : FileTree) (path : List String) : FileTree :=
  if t.occupied path then t else ⟨t.entries.insert path .folder⟩

/-- Put a file at a path. -/
def write (t : FileTree) (path : List String) (content : Bytes) : FileTree :=
  ⟨t.entries.insert path (.file content)⟩

/-- Take away what stands at a path and below it. -/
def remove (t : FileTree) (path : List String) : FileTree :=
  ⟨(t.entries.toList.filter fun e => path.isPrefixOf e.1).foldl (fun m e => m.erase e.1) t.entries⟩

/-- What stands at a path and below it, with the rest of the paths, in the order of a walk. -/
def below (t : FileTree) (path : List String) : List (List String × FileTree.Entry) :=
  (t.entries.toList.filter fun e => path.isPrefixOf e.1).map fun e => (e.1.drop path.length, e.2)

/-- What stands in a folder, by name. -/
def inside (t : FileTree) (folder : List String) : List (String × FileTree.Entry) :=
  (t.below folder).filterMap fun e =>
    match e.1 with
    | [name] => some (name, e.2)
    | _ => none

end FileTree

end Suggest
