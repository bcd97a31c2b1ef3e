/-
# The program

Runs the command line on the files that are really there, and writes down those that have changed. Folders that are reached
by a link inside a catalog are not walked.
-/

import Std.Time.DateTime.Timestamp
import Suggest.CommandLine

namespace Suggest
namespace CommandLine

/-- Add what stands at a path to a file tree, and all that is in it, but only files and folders. -/
partial def load (tree : FileTree) (path : List String) : IO FileTree := do
  let place := (← IO.currentDir) / FileTree.textOf path
  if !(← place.pathExists) then return tree
  else if ← place.isDir then
    (← place.readDir).foldlM (fun tree entry => do
      if (← entry.path.isDir) && (← entry.path.symlinkMetadata).type != .dir then return tree
      else load tree (path ++ [entry.fileName])) (tree.addFolder path)
  else if (← place.metadata).type == .file then
    return tree.write path (← IO.FS.readBinFile place).toList
  else return tree.remove path

/-- Add what stands at a path to a file tree, without what is in it. -/
def look (tree : FileTree) (path : List String) : IO FileTree := do
  let place := (← IO.currentDir) / FileTree.textOf path
  if ← place.isDir then return tree.addFolder path
  else if (← place.pathExists) && (tree.content? path).isNone then return tree.write path []
  else return tree

/-- Add what stands on the way of a walk to a file tree, without what is in it. -/
def survey (tree : FileTree) (text : String) : IO FileTree := do
  let surveyed ← (FileTree.steps text).foldlM (fun (tree, path) name => do
    let path := FileTree.onward path name
    return (← look tree path, path)) (← look tree (FileTree.start text), FileTree.start text)
  return surveyed.1

/-- Add what stands in the folder of a cache to a file tree, and the content of the cache's own files. -/
def loadCache (tree : FileTree) (folder : List String) : IO FileTree := do
  let place := (← IO.currentDir) / FileTree.textOf folder
  if !(← place.isDir) then return tree
  (← place.readDir).foldlM (fun tree entry => do
    let path := folder ++ [entry.fileName]
    if CacheFolder.isFileName entry.fileName && !(← entry.path.isDir) then load tree path else look tree path) tree

/-- The files that a command may look at. -/
def gather (a : Arguments) : IO FileTree := do
  let tree ← survey {} a.cache
  let tree ← match tree.walk a.cache with
    | .ok folder => loadCache tree folder
    | .error _ => pure tree
  let tree ← match a.command with
    | .exportTo path => survey tree path
    | .build _ | .clear | .stats => pure tree
  match a.command with
  | .build _ | .exportTo _ =>
    let tree ← survey tree a.catalog
    match tree.walk a.catalog with
    | .ok path => load tree path
    | .error _ => return tree
  | .clear | .stats => return tree

/-- What a run starts from. -/
def World.read (arguments : List String) : IO World := do
  let now := (← Std.Time.Timestamp.now).toNanosecondsSinceUnixEpoch.val.toNat
  let home := (← IO.currentDir).toString
  match Arguments.parse arguments with
  | .error _ => return { home, now }
  | .ok a => return { files := ← gather a, home, now }

/-- Write down what a run has changed. -/
def World.store (before after : World) : IO Unit := do
  for (path, _) in before.files.entries.toList do
    if !after.files.occupied path then IO.FS.removeFile ((← IO.currentDir) / FileTree.textOf path)
  for (path, entry) in after.files.entries.toList do
    let place := (← IO.currentDir) / FileTree.textOf path
    match entry with
    | .folder => IO.FS.createDirAll place
    | .file content =>
      if before.files.content? path ≠ some content then IO.FS.writeBinFile place ⟨content.toArray⟩

end CommandLine
end Suggest

open Suggest CommandLine in
/-- Run the program on the files that are there. -/
def main (arguments : List String) : IO UInt32 := do
  let begun ← IO.monoMsNow
  try
    let before ← World.read arguments
    let (ending, after) := before.run arguments
    before.store after
    IO.print (ending.printed (secondsText ((← IO.monoMsNow) - begun)))
    unless ending.complaint.isEmpty do IO.eprintln ending.complaint
    return UInt32.ofNat ending.code
  catch e =>
    IO.eprintln ("Error: " ++ toString e)
    return 1
