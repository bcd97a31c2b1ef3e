/-
# The folder of a durable cache

A durable cache is kept in a folder, where it has things of its own:

| name | what it is |
| --- | --- |
| `blobs` | a folder for what is too long for the image, which nothing is so far |
| `conf` | a file with the terms, put there as `conf.tmp` first |
| `db` | a file with the image |
| `snap.` and digits | a file that sums up the image, put there as `snap.`, digits and `.generating` first |

To open a cache is to put there what is missing. The terms must be those of this program, and the folder must also be
found by its full path. An image that is there already is summed up anew, after which `blobs` must be a folder. The last
summary by name is the one that counts: it must be one of this program's, and then there must be an image.
-/

import Suggest.Cache.Image
import Suggest.Cache.Terms
import Suggest.FileTree.Walk

namespace Suggest
namespace CacheFolder

/-- The folder for long entries. -/
def blobsName : String := "blobs"

/-- The file with the terms. -/
def termsName : String := "conf"

/-- The name of that file while it is written. -/
def freshTermsName : String := "conf.tmp"

/-- The file with the image. -/
def imageName : String := "db"

/-- What the names of summaries start with. -/
def summaryStart : String := "snap."

/-- How many digits there are in the name of a summary. -/
def summaryDigits : Nat := 16

/-- The name of the summary of an image of some length. -/
def summaryName (length : Nat) : String :=
  let digits := Nat.toDigits 16 length
  summaryStart ++ "".pushn '0' (summaryDigits - digits.length) ++ String.ofList digits

/-- The name of that file while it is written. -/
def freshSummaryName (length : Nat) : String := summaryName length ++ ".generating"

/-- What is in a summary, which is no text. -/
def summary : Bytes := [DurableCache.mark]

/-- The byte of the image at which it is looked at first when there is a summary. -/
def firstLook : Nat := 72

/-- Whether a name is for a file of the cache. -/
def isFileName (name : String) : Bool := name = termsName || name = imageName || name.startsWith summaryStart

/-- Why a cache cannot be opened. -/
inductive Failure where
  | obstacle (o : FileTree.Obstacle)
  | corrupted (place : Option Nat)
  | otherTerms (complaint : String)
  deriving DecidableEq, Repr

/-- The wording of a failure. -/
def Failure.message : Failure → String
  | .obstacle o => "IO error: " ++ o.message
  | .corrupted place =>
    "Read corrupted data at file offset " ++
      (match place with
        | none => "None"
        | some n => "Some(Inline(" ++ toString n ++ "))") ++ " backtrace ()"
  | .otherTerms complaint => "Unsupported: " ++ complaint

/-- Changes to a file tree that may fail. What was done before stays done. -/
abbrev Opening := ExceptT Failure (StateM FileTree)

/-- Ask the file tree for what an obstacle may be in the way of. -/
def ask {α : Type} (question : FileTree → Except FileTree.Obstacle α) : Opening α :=
  ExceptT.mk fun t => ((question t).mapError .obstacle, t)

/-- Have the folder for long entries, and the folder of the cache with it. Anything with its name will do. -/
def haveFolders (path : String) : Opening Unit := do
  match (← get).walk (FileTree.join path blobsName) with
  | .ok _ => return
  | .error _ => ExceptT.mk fun t =>
    let (made, t) := t.makeFolders (FileTree.join path blobsName)
    ((made.mapError .obstacle).map fun _ => (), t)

/-- The place of a file in the folder of a cache. -/
def placeOf (path name : String) : Opening (List String) := ask fun t => t.placeFor (FileTree.join path name)

/-- Have the file with the terms, unless there are other terms. -/
def haveTerms (path : String) : Opening Unit := do
  let place ← placeOf path termsName
  let content := ((← get).content? place).getD []
  if content.length ≤ Terms.silentBytes then
    let fresh ← placeOf path freshTermsName
    modify fun t => (t.remove fresh).write place ({} : Terms).bytes
  else
    match Terms.ofBytes? content with
    | none => throw (.corrupted none)
    | some terms =>
      match terms.complaint? with
      | none => return
      | some complaint => throw (.otherTerms complaint)

/-- Have the file with the image, which may be empty, and give back its place. -/
def haveImage (path : String) : Opening (List String) := do
  let place ← placeOf path imageName
  modify fun t => if (t.content? place).isSome then t else t.write place []
  return place

/-- Refuse a path that is too long. -/
def refuseLong (path : String) : Opening Unit :=
  if FileTree.isTooLong path then throw (.obstacle .longName) else return

/-- The summaries with their places, by name. They are known by their full path, so where the path ends with steps that lead
nowhere else there are none. -/
def summaries (home path : String) : Opening (List (List String × FileTree.Entry)) := do
  let full := FileTree.trimEnd (FileTree.seenFrom home path)
  refuseLong full
  if FileTree.join full summaryStart = FileTree.seenFrom home (FileTree.join path summaryStart) then
    let folder ← ask fun t => t.walk path
    let named := ((← get).inside folder).filter fun e => e.1.startsWith summaryStart
    return named.map fun e => (folder ++ [e.1], e.2)
  else return []

/-- Whether there is a summary, which must not be a foreign one. -/
def hasSummary (home path : String) : Opening Bool := do
  match (← summaries home path).getLast? with
  | none => return false
  | some (_, .folder) => throw (.obstacle .folder)
  | some (_, .file content) => if content = summary then return true else throw (.corrupted none)

/-- Sum up an image, and take away the other summaries. -/
def haveSummary (home path : String) (image : Bytes) : Opening Unit := do
  let _ ← placeOf path (freshSummaryName image.length)
  let place ← placeOf path (summaryName image.length)
  let others := (← summaries home path).filter fun e => e.1 ≠ place && e.2 ≠ .folder
  modify fun t => (others.foldl (fun t e => t.remove e.1) t).write place summary

/-- Open the cache in the folder at a path, seen from the folder `home`, and give back the place of its image. -/
def openAt (home path : String) : Opening (List String × DurableCache) := do
  haveFolders path
  haveTerms path
  let place ← haveImage path
  let summed ← hasSummary home path
  let image := ((← get).content? place).getD []
  let cache? := DurableCache.ofImage? image
  if cache?.isNone && !summed then return (place, {})
  haveSummary home path image
  let _ ← ask fun t => t.walk (FileTree.join path blobsName ++ "/")
  match cache? with
  | some cache => return (place, cache)
  | none => throw (.corrupted (some firstLook))

end CacheFolder
end Suggest
