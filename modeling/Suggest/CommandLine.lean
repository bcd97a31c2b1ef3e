/-
# The command line

One run of the program starts an engine at the given catalog and the given cache, does what the command says, and tells
about it. Files last from one run to the next, and with them the caches, each of which is kept in a folder.

| command | what it tells |
| --- | --- |
| `build` | whether an index was built, in what time and of what, and how many nodes it has |
| `clear` | that the cache is cleared |
| `stats` | the statistics, in JSON |
| `export` | how many bytes were written where |
-/

import Suggest.Cache.Folder
import Suggest.CommandLine.Arguments
import Suggest.Engine
import Suggest.Text.Line

namespace Suggest

namespace CommandLine

/-- The files that a run sees, the path of the folder that it sees them from, and the time. -/
structure World where
  files : FileTree := {}
  home : String := "/"
  now : Moment := 0

/-- What a run tells about what it has done. -/
inductive Output where
  | built (outcome : Engine.Outcome) (stats : Stats)
  | cleared
  | stats (s : Stats)
  | exported (bytes : Nat) (path : String)
  deriving DecidableEq

/-- How a run ends. -/
inductive Ending where
  | done (output : Output)
  | failed (message : String)
  | stopped (stop : Stop)
  deriving DecidableEq

/-- The code that a run ends with. -/
def Ending.code : Ending → Nat
  | .done _ | .stopped .help => 0
  | .failed _ => 1
  | .stopped .misuse => 2

/-- How the arguments go. -/
def usage : List String := [
  "Build and manage the cached type-ahead search index",
  "",
  "Usage: typeahead-indexer [OPTIONS] <COMMAND>",
  "",
  "Commands: build [--force], clear, stats, export --output <OUTPUT>, help",
  "Options: --catalog <CATALOG>, --cache <CACHE>, --cache-key <CACHE_KEY>, --cache-ttl <CACHE_TTL>, --help"]

/-- A time in seconds with two decimals. -/
def secondsText (milliseconds : Nat) : String :=
  let hundredths := (milliseconds + 5) / 10
  toString (hundredths / 100) ++ "." ++ toString (hundredths / 10 % 10) ++ toString (hundredths % 10)

/-- The lines of an output, given the time that the run took in seconds. -/
def Output.lines (elapsed : String) : Output → List String
  | .built outcome s =>
    (match outcome with
      | .built report =>
        "built search index in " ++ elapsed ++ "s: " ++ toString report.items ++ " items, " ++ toString report.parts ++
          " parts, " ++ toString report.entries ++ " entries"
      | .alreadyLoaded | .fromCache => "search index already cached; pass --force to rebuild") ::
    ["  total nodes: " ++ toString s.totalNodes, "  terminal nodes: " ++ toString s.terminalNodes,
      "  loaded: " ++ toString s.loaded]
  | .cleared => ["cleared search index cache"]
  | .stats s => [Json.text (Json.objectLines s.members)]
  | .exported bytes path => ["wrote " ++ toString bytes ++ " bytes to " ++ path]

/-- What a run prints, given the time that it took in seconds. -/
def Ending.printed (elapsed : String) : Ending → String
  | .done output => Text.unlines (output.lines elapsed)
  | .stopped .help => Text.unlines usage
  | .failed _ | .stopped .misuse => ""

/-- What a run complains about. -/
def Ending.complaint : Ending → String
  | .failed message => "Error: " ++ message
  | .stopped .misuse => Text.unlines usage
  | .done _ | .stopped .help => ""

/-- The engine of a run with a cache. -/
def World.engine (w : World) (a : Arguments) (cache : DurableCache) : Engine :=
  Engine.start { cacheKey := a.cacheKey, lifetime := ⟨a.cacheTtl, 0⟩ }
    { source := .files w.files a.catalog, cache := .durable cache, now := w.now }

/-- Keep the image of an engine's cache at a place. -/
def World.keep (w : World) (place : List String) (e : Engine) : World :=
  match e.site.cache with
  | .durable cache => { w with files := w.files.write place cache.image }
  | .memory _ => w

/-- Write a file. -/
def World.write (w : World) (path : String) (content : Bytes) : Except FileTree.Obstacle Unit × World :=
  match w.files.placeFor path with
  | .ok place => (.ok (), { w with files := w.files.write place content })
  | .error obstacle => (.error obstacle, w)

/-- Do what the command says, with a cache whose image is kept at a place. -/
def World.perform (w : World) (a : Arguments) (place : List String) (cache : DurableCache) : Ending × World :=
  let e := w.engine a cache
  match a.command with
  | .build force =>
    let (outcome, e) := e.build force
    (match outcome with
      | .ok outcome => .done (.built outcome e.stats)
      | .error f => .failed f.message, w.keep place e)
  | .clear =>
    let (cleared, e) := e.clear
    (match cleared with
      | .ok () => .done .cleared
      | .error f => .failed f.message, w.keep place e)
  | .stats => (.done (.stats e.stats), w.keep place e)
  | .exportTo path =>
    let (exported, e) := e.exportSnapshot
    let w := w.keep place e
    match exported with
    | .error f => (.failed f.message, w)
    | .ok text =>
      let bytes := Text.bytes text
      let (written, w) := w.write path bytes
      (match written with
        | .ok () => .done (.exported bytes.length path)
        | .error obstacle => .failed obstacle.message, w)

/-- Run the program with arguments. -/
def World.run (w : World) (arguments : List String) : Ending × World :=
  match Arguments.parse arguments with
  | .error stop => (.stopped stop, w)
  | .ok a =>
    let (opened, files) := ((CacheFolder.openAt w.home a.cache).run).run w.files
    let w := { w with files }
    match opened with
    | .ok (place, cache) => w.perform a place cache
    | .error failure => (.failed (Cache.Failure.backend.report failure.message), w)

end CommandLine

end Suggest
