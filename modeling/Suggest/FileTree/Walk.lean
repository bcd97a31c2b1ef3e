/-
# Walks through a file tree

A walk follows the steps of a text, between which there are slashes. It starts in the top folder, or at the root of all
files if the text starts with a slash. Every step leaves a folder:

| step | leads |
| --- | --- |
| nothing, or `.` | nowhere else |
| `..` | to the folder around |
| a name | to what has this name in the folder |

So a walk comes to nothing behind a file and behind a name that nothing has, even where the steps after it lead back, and
a slash at the end is only for folders. Names and texts have a greatest length, whatever there is.
-/

import Suggest.FileTree
import Suggest.Text.Parts

namespace Suggest
namespace FileTree

/-- Why a walk comes to nothing, or to no place for a file or a folder. -/
inductive Obstacle where
  | missing
  | file
  | notFolder
  | folder
  | longName
  deriving DecidableEq, Repr

/-- The wording of an obstacle. -/
def Obstacle.message : Obstacle → String
  | .missing => "No such file or directory (os error 2)"
  | .file => "File exists (os error 17)"
  | .notFolder => "Not a directory (os error 20)"
  | .folder => "Is a directory (os error 21)"
  | .longName => "File name too long (os error 36)"

/-- How many bytes a name has at most. -/
def maxNameBytes : Nat := 255

/-- How many bytes the text of a walk has at most. -/
def maxPathBytes : Nat := 4095

/-- Where a walk starts. -/
def start (text : String) : List String := if text.startsWith "/" then ["/"] else []

/-- The steps of a walk. -/
def steps (text : String) : List String := Text.split '/' text

/-- Where a step with a name leads from a folder, if there is anything. -/
def onward (folder : List String) (name : String) : List String :=
  if name = "" ∨ name = "." then folder
  else if name ≠ ".." ∨ folder.all (· = "..") then folder ++ [name]
  else if folder = ["/"] then folder
  else folder.dropLast

/-- Take a step with a name. -/
def step (t : FileTree) (place : List String) (name : String) : Except Obstacle (List String) :=
  if !t.isFolder place then .error .notFolder
  else if maxNameBytes < name.utf8ByteSize then .error .longName
  else if t.occupied (onward place name) then .ok (onward place name)
  else .error .missing

/-- The text of a walk with one more step. -/
def join (text name : String) : String := if text.endsWith "/" then text ++ name else text ++ "/" ++ name

/-- The text of a walk, if it starts in a folder unless it starts at the root of all files. -/
def seenFrom (folder text : String) : String := if text.startsWith "/" then text else join folder text

/-- The text of a walk without the steps at its end that lead nowhere else. -/
def trimEnd (text : String) : String :=
  "/".intercalate ((steps text).reverse.dropWhile fun name => name = "" || name = ".").reverse

/-- Whether a text is too long for a walk. -/
def isTooLong (text : String) : Bool := maxPathBytes < text.utf8ByteSize

/-- Where a walk leads. -/
def walk (t : FileTree) (text : String) : Except Obstacle (List String) :=
  if isTooLong text then .error .longName else (steps text).foldlM t.step (start text)

/-- Take steps to folders, and put a folder where there is nothing. A file is in the way. -/
def pave (t : FileTree) (place : List String) : List String → Except Obstacle (List String) × FileTree
  | [] => (.ok place, t)
  | name :: rest =>
    match t.step place name with
    | .ok next => if t.isFolder next then t.pave next rest else (.error .file, t)
    | .error .missing => (t.addFolder (onward place name)).pave (onward place name) rest
    | .error obstacle => (.error obstacle, t)

/-- The folder that a walk leads to, with the folders that are missing put there. A walk that something else is in the way
of is not begun. -/
def makeFolders (t : FileTree) (text : String) : Except Obstacle (List String) × FileTree :=
  match t.walk text with
  | .ok place => if t.isFolder place then (.ok place, t) else (.error .file, t)
  | .error .missing => t.pave (start text) (steps text)
  | .error obstacle => (.error obstacle, t)

/-- A walk starts in a folder. -/
theorem isFolder_start (t : FileTree) (text : String) : t.isFolder (start text) = true := by
  unfold start
  split <;> simp [isFolder]

/-- Where a step meets nothing, a folder can be put. -/
theorem isFolder_addFolder_of_step {t : FileTree} {place : List String} {name : String}
    (h : t.step place name = .error .missing) :
    (t.addFolder (onward place name)).isFolder (onward place name) = true := by
  have free : t.occupied (onward place name) = false := by
    simp only [step] at h
    repeat' split at h
    all_goals simp_all
  simp [addFolder, free, isFolder, SortedMap.insert]

/-- Paving ends in a folder if it starts in one. -/
theorem isFolder_of_pave {t after : FileTree} {place folder : List String} {names : List String}
    (starts : t.isFolder place = true) (h : t.pave place names = (.ok folder, after)) :
    after.isFolder folder = true := by
  induction names generalizing t place with
  | nil => simp_all [pave]
  | cons name names ih =>
    rw [pave] at h
    split at h
    · split at h
      · next folds => exact ih folds h
      · simp at h
    · next missing => exact ih (isFolder_addFolder_of_step missing) h
    · simp at h

theorem isFolder_of_makeFolders {t after : FileTree} {text : String} {folder : List String}
    (h : t.makeFolders text = (.ok folder, after)) : after.isFolder folder = true := by
  unfold makeFolders at h
  split at h
  · split at h <;> simp_all
  · exact isFolder_of_pave (t.isFolder_start text) h
  · simp at h

/-- The steps to what stands in a folder: those to the folder, and the last one. -/
def lastStep (text : String) : List String × String :=
  let names := (steps text).filter fun name => !name.isEmpty
  (names.dropLast, names.getLastD ".")

/-- The place of a file that is about to be written. The folder that it is in must be there. -/
def placeFor (t : FileTree) (text : String) : Except Obstacle (List String) := do
  if isTooLong text then throw .longName
  let (names, name) := lastStep text
  let folder ← (names ++ ["."]).foldlM t.step (start text)
  if name = "." ∨ name = ".." ∨ text.endsWith "/" then .error .folder
  else if maxNameBytes < name.utf8ByteSize then .error .longName
  else if t.isFolder (folder ++ [name]) then .error .folder
  else .ok (folder ++ [name])

/-- Write a file, with the folders that are missing on the way, unless there is no place for it. -/
def makeFile (t : FileTree) (text : String) (content : Bytes) : FileTree :=
  let (_, t) := t.pave (start text) (lastStep text).1
  match t.placeFor text with
  | .ok place => t.write place content
  | .error _ => t

end FileTree
end Suggest
