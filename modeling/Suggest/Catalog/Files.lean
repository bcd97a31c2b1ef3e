/-
# Catalogs in files

A catalog is one file, or all files with the extension `json` or `jsonl` in a folder and the folders in it, in the order
of a walk. A `jsonl` file has a record on each line that is not blank. Every other file is one JSON text: an array of
records, or one record; any other value has no records.

Reading stops at the first record that is none, and says in which file it is and why. A file in a folder is left out if
its path is too long for a walk, but what is in a folder with such a path cannot be known, so then there is no catalog.
-/

import Suggest.Catalog.Record
import Suggest.FileTree.Walk
import Suggest.Text.Line
import Suggest.Text.Parts

namespace Suggest
namespace Catalog

/-- Why a catalog cannot be read. -/
inductive Failure where
  /-- A line that is no text. -/
  | io (path : String)
  /-- A record that is none. -/
  | record (path : String) (fault : Json.Fault)
  | scan (reason : String)
  deriving DecidableEq, Repr

namespace Failure

/-- What is behind a failure. -/
def cause : Failure → String
  | .io _ => "<InvalidData>"
  | .record _ fault => fault.message
  | .scan reason => reason

/-- The wording of a failure, with something to say about what is behind it. -/
def report (cause : String) : Failure → String
  | .io path => "catalog io error at " ++ path ++ ": " ++ cause
  | .record path _ => "malformed catalog record in " ++ path ++ ": " ++ cause
  | .scan reason => "catalog scan failed: " ++ reason

/-- The wording of a failure for those who need not know what is behind it. -/
def message (f : Failure) : String := f.report "<source>"

end Failure

/-- What stands behind the last point of a file name, if there is something in front of it. -/
def extension? (name : String) : Option String :=
  match Text.split '.' name with
  | [] | [_] => none
  | first :: more => if first.isEmpty && more.length = 1 then none else more.getLast?

/-- Whether a file is read line by line. -/
def isLines (name : String) : Bool := extension? name = some "jsonl"

/-- Whether a file in a folder belongs to a catalog. -/
def isListed (name : String) : Bool := isLines name || extension? name = some "json"

/-- The record on a line, if the line is not blank. -/
def readLine (path : String) (line : Bytes) : Except Failure (List Record) :=
  match Text.text? line with
  | none => .error (.io path)
  | some text =>
    if (Text.trim text).isEmpty then .ok []
    else (Record.reader.ofText text).map ([·]) |>.mapError (.record path)

/-- The records of a value. -/
def readValue (path : String) (v : Json.Value) : Except Failure (List Record) :=
  match v with
  | .array items => (items.mapM Record.reader.ofValue).mapError (.record path)
  | .object members => (Record.reader.ofValue (.object members)).map ([·]) |>.mapError (.record path)
  | _ => .ok []

/-- The records of a file. -/
def readFile (path name : String) (content : Bytes) : Except Failure (List Record) :=
  if isLines name then ((Text.lines content).mapM (readLine path)).map List.flatten
  else do readValue path (← (Json.Value.ofBytes content).mapError (.record path))

/-- A file of a catalog: its path as it is shown, its name and its content. -/
structure File where
  path : String
  name : String
  content : Bytes

/-- The files of a catalog that something in its folder stands for. -/
def listing (root : String) : List String × FileTree.Entry → Except Failure (List File)
  | (names, entry) =>
    let path := names.foldl FileTree.join root
    let name := names.getLastD ""
    match entry with
    | .file content => .ok (if isListed name && !FileTree.isTooLong path then [⟨path, name, content⟩] else [])
    | .folder =>
      if FileTree.isTooLong path then
        .error (.scan ("IO error for operation on " ++ path ++ ": " ++ FileTree.Obstacle.longName.message))
      else .ok []

/-- The files of the catalog at a path. -/
def files (tree : FileTree) (root : String) : Except Failure (List File) :=
  match tree.walk root with
  | .ok place =>
    match tree.content? place with
    | some content => .ok [⟨root, place.getLastD "", content⟩]
    | none => ((tree.below place).mapM (listing root)).map List.flatten
  | .error _ => .error (.scan ("catalog path " ++ root ++ " does not exist"))

/-- The records of the catalog at a path. -/
def readFiles (tree : FileTree) (root : String) : Except Failure Records := do
  let records ← (← files tree root).mapM fun file => readFile file.path file.name file.content
  return Records.addAll {} records.flatten

end Catalog
end Suggest
