/-
# The site of an engine

What an engine works with: a catalog to scan and a cache to keep the snapshot in. At a site calls may be out of order,
and something may be about to happen in the middle of the next scan. Time stands still during a call.

| catalog | scanned |
| --- | --- |
| `store` | at once |
| `listing` | first its items, then its parts |
| `files` | file by file |
-/

import Suggest.Cache
import Suggest.Catalog.Files

namespace Suggest

/-- Where the records of a catalog come from. -/
inductive Catalog.Source where
  | store (records : Catalog.Records)
  | listing (records : Catalog.Records)
  | files (tree : FileTree) (root : String)

namespace Catalog.Source

/-- Change the records of a catalog that is kept in memory. -/
def modify (s : Source) (f : Records → Records) : Source :=
  match s with
  | .store records => .store (f records)
  | .listing records => .listing (f records)
  | .files tree root => .files tree root

/-- Change the files of a catalog that is kept in files. -/
def modifyFiles (s : Source) (f : FileTree → FileTree) : Source :=
  match s with
  | .files tree root => .files (f tree) root
  | s => s

/-- The records of a catalog that is kept in memory. -/
def records : Source → Records
  | .store records | .listing records => records
  | .files .. => {}

end Catalog.Source

/-- The calls to a catalog that are out of order. -/
structure Catalog.Outage where
  scan : Bool := false
  items : Bool := false
  parts : Bool := false
  deriving DecidableEq, Repr

/-- Which engine is cleared: the one at the site, or one that was there before and had a cache key. -/
inductive Clearing where
  | current
  | former (cacheKey : String)
  deriving DecidableEq, Repr

/-- The same clearing once another engine has taken the place of one with a cache key. -/
def Clearing.outlive (cacheKey : String) : Clearing → Clearing
  | .current => .former cacheKey
  | .former key => .former key

/-- What happens in the middle of a scan: an engine is cleared, or an item is put into the catalog, or both. -/
structure Interruption where
  clears : Option Clearing := none
  upserts : Option Catalog.Item := none
  deriving DecidableEq, Repr

/-- The same interruption once another engine has taken the place of one with a cache key. -/
def Interruption.outlive (i : Interruption) (cacheKey : String) : Interruption :=
  { i with clears := i.clears.map (·.outlive cacheKey) }

/-- A catalog, a cache, the time, which calls are out of order, what is about to happen, and how many scans there
were. -/
structure Site where
  source : Catalog.Source
  cache : Cache
  now : Moment
  catalogOutage : Catalog.Outage := {}
  cacheOutage : Cache.Outage := {}
  pending : Option Interruption := none
  scans : Nat := 0

namespace Site

/-- What a call that is out of order comes to. -/
def offline (call : String) : Except Catalog.Failure Catalog.Records := .error (.scan (call ++ " offline"))

/-- The records of the catalog, as one scan finds them. -/
def records (s : Site) : Except Catalog.Failure Catalog.Records :=
  match s.source with
  | .store records => if s.catalogOutage.scan then offline "scan" else .ok records
  | .listing records =>
    if s.catalogOutage.items then offline "items"
    else if s.catalogOutage.parts then offline "parts"
    else .ok records
  | .files tree root => if s.catalogOutage.scan then offline "scan" else Catalog.readFiles tree root

/-- What happens in the middle of a scan that starts now. -/
def interruption (s : Site) : Option Interruption :=
  match s.source with
  | .listing _ => none
  | _ => s.pending

end Site

end Suggest
