/-
# The search engine

An engine serves one index. It has the index from the cache or builds it from a scan of the catalog, and it keeps the
snapshot of every index that it builds in the cache.

| call | index afterwards |
| --- | --- |
| `build` | as it was, if one is loaded; or else the cached one; or else a new one |
| `build`, forced | a new one |
| `clear` | none, and none in the cache |
| a search | as after `build`, if none is loaded |
| `shutdown` | none |

Clearing also counts up the generation. A build that is overtaken by it serves what it has scanned, but neither calls it
loaded nor puts it into the cache. A build that fails leaves everything as it was.
-/

import Suggest.Catalog.Indexing
import Suggest.Change
import Suggest.Engine.Settings
import Suggest.Engine.Site
import Suggest.Snapshot

namespace Suggest

/-- An engine at its site, with the index that it serves. -/
structure Engine where
  settings : Settings
  site : Site
  served : Option Index := none
  loaded : Bool := false
  generation : Nat := 0

namespace Engine

/-- Why a call fails. -/
inductive Failure where
  | source (f : Catalog.Failure)
  | snapshot (r : Snapshot.Refusal)
  | cache (f : Cache.Failure)
  deriving DecidableEq, Repr

/-- The wording of a failure. -/
def Failure.message : Failure → String
  | .source f => "data source error: " ++ f.message
  | .snapshot r => "serialization error: " ++ r.message
  | .cache f => "cache unavailable: " ++ f.message

/-- Whether the same call may go well at another time. -/
def Failure.isRetriable : Failure → Bool
  | .source _ | .cache _ => true
  | .snapshot _ => false

/-- What a build comes to. -/
inductive Outcome where
  | alreadyLoaded
  | fromCache
  | built (report : Catalog.Report)
  deriving DecidableEq, Repr

/-- The index that is served, which is empty if there is none. -/
def current (e : Engine) : Index := e.served.getD ∅

/-- The engine with another cache. -/
def withCache (e : Engine) (cache : Cache) : Engine := { e with site := { e.site with cache } }

/-- The bytes under the engine's key. -/
def cached (e : Engine) : Except Cache.Failure (Option Bytes) × Engine :=
  let (found, cache) := e.site.cache.get e.site.cacheOutage e.site.now e.settings.cacheKey
  (found, e.withCache cache)

/-- Load the cached index, if there is one that can be read. -/
def load (e : Engine) : Bool × Engine :=
  let (found, e) := e.cached
  match found with
  | .ok (some bytes) =>
    match Snapshot.decode bytes with
    | .ok (_, index) => (true, { e with served := some index, loaded := true })
    | .error _ => (false, e)
  | _ => (false, e)

/-- A new engine at a site, with the cached index if it can be loaded. -/
def start (settings : Settings) (site : Site) : Engine := (load { settings, site }).2

/-- A new engine at the site of an old one, which stays the one to be cleared if that was about to happen. -/
def restart (e : Engine) (settings : Settings) : Engine :=
  start settings { e.site with pending := e.site.pending.map (·.outlive e.settings.cacheKey) }

/-- Put an index into the cache, if the cache is in order. -/
def save (e : Engine) (index : Index) : Engine :=
  e.withCache (e.site.cache.set e.site.cacheOutage e.site.now e.settings.cacheKey
    (Text.bytes (Snapshot.encode index)) e.settings.lifetime).2

/-- Drop the index, and the cached one too. The failure says that the cached one may still be there. -/
def clear (e : Engine) : Except Failure Unit × Engine :=
  let (deleted, cache) := e.site.cache.delete e.site.cacheOutage e.settings.cacheKey
  (deleted.mapError .cache,
    { e.withCache cache with served := none, loaded := false, generation := e.generation + 1 })

/-- Drop the index because the catalog has changed, whatever the change is. -/
def onChange (e : Engine) (_ : Change) : Except Failure Unit × Engine := e.clear

/-- Clear this engine, or one that was at its site before, of which nothing but the cached index is left. A failure is not
noticed. -/
def clearOne (e : Engine) : Clearing → Engine
  | .current => e.clear.2
  | .former key => e.withCache (e.site.cache.delete e.site.cacheOutage key).2

/-- Let happen what happens in the middle of a scan. -/
def interrupt (e : Engine) (i : Interruption) : Engine :=
  let e := { e with site := { e.site with pending := none } }
  let e := i.clears.elim e e.clearOne
  match i.upserts with
  | some item => { e with site := { e.site with source := e.site.source.modify (·.upsertItem item) } }
  | none => e

/-- Scan the catalog. -/
def scan (e : Engine) : Except Catalog.Failure Catalog.Records × Engine :=
  let e := { e with site := { e.site with scans := e.site.scans + 1 } }
  let e := match e.site.interruption with
    | some i => e.interrupt i
    | none => e
  (e.site.records, e)

/-- Build the index from a scan. -/
def rebuild (e : Engine) : Except Failure Outcome × Engine :=
  let generation := e.generation
  let (scanned, e) := e.scan
  match scanned with
  | .error f => (.error (.source f), e)
  | .ok records =>
    let index := records.index
    let e := { e with served := some index, loaded := e.generation = generation }
    (.ok (.built records.report), if e.loaded then e.save index else e)

/-- Have an index loaded, or a new one if that is forced. -/
def build (e : Engine) (force : Bool) : Except Failure Outcome × Engine :=
  if force then e.rebuild
  else if e.loaded then (.ok .alreadyLoaded, e)
  else
    let (found, e) := e.load
    if found then (.ok .fromCache, e) else e.rebuild

/-- Have an index loaded if possible. -/
def prepare (e : Engine) : Engine := if e.loaded then e else (e.build false).2

/-- The text of the loaded index. -/
def exportSnapshot (e : Engine) : Except Failure String × Engine :=
  let (outcome, e) := e.build false
  (outcome.map fun _ => Snapshot.encode e.current, e)

/-- Search both ways for a query without the white space around it, and keep the given categories. There is no answer if
there is no room for as many entries as allowed, or no order of what is found. -/
def search? (e : Engine) (query : String) (limit : Nat) (categories : Option (List String)) :
    Option (List Entry) × Engine :=
  let query := Text.trim query
  if query.length < e.settings.minQueryChars then (some [], e)
  else
    let e := e.prepare
    let ranking := e.settings.ranking
    let found := e.current.hybridSearch? query (e.settings.limitFor limit) ranking.preferPrefix ranking
    (match categories with
      | some categories => found.map fun entries => entries.filter fun entry => categories.contains entry.category
      | none => found, e)

/-- Ask the index that is served. -/
def ask {α : Type} (e : Engine) (query : Index → Ranking → α) : α × Engine :=
  let e := e.prepare
  (query e.current e.settings.ranking, e)

/-- Search by prefix. -/
def prefixSearch? (e : Engine) (query : String) (limit : Nat) : Option (List Entry) × Engine :=
  e.ask fun i r => i.prefixSearch? query limit r

/-- Search by words. -/
def keywordSearch? (e : Engine) (query : String) (limit : Nat) : Option (List Entry) × Engine :=
  e.ask fun i r => i.keywordSearch? query limit r

/-- Search by prefix, and inside texts. -/
def prefixOrSubstringSearch? (e : Engine) (query : String) (limit : Nat) (includeSubstring : Bool) :
    Option (List Entry) × Engine :=
  e.ask fun i r => i.prefixOrSubstringSearch? query limit includeSubstring r

/-- Search both ways. -/
def hybridSearch? (e : Engine) (query : String) (limit : Nat) (preferPrefix : Bool) : Option (List Entry) × Engine :=
  e.ask fun i r => i.hybridSearch? query limit preferPrefix r

/-- What the engine says about the index. -/
def stats (e : Engine) : Stats :=
  let counts := e.current.counts
  ⟨e.loaded, counts.total, counts.terminal, e.settings.cacheKey⟩

/-- Drop the index, but leave the cached one. -/
def shutdown (e : Engine) : Engine := { e with served := none, loaded := false }

end Engine

end Suggest
