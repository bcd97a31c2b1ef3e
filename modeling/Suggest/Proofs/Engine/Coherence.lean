/-
# What an engine serves is what was built last

An engine goes through calls, changes of the catalog and failures in any order (`Engine.Event`).  Beside it runs the record
of what happened (`Engine.Past`), which the engine does not know: how often it was cleared, and which catalogs it scanned
for a build, with the number of clearings before and after each scan.

| | |
| --- | --- |
| `Build.overtaken` | it was cleared while the catalog was scanned |
| `Past.latest?` | the latest build that was not overtaken |
| `Past.Valid` | its index, if the engine was not cleared since its scan began |

An engine is coherent with its past (`Coherent`) if what is cached and what is loaded are both the valid index.  Every event
keeps that up (`Coherent.step`), so it holds after every run (`coherent_runAll`).

The cache does not fail and nobody else writes to it.  Reading it may take an expired entry away, and so may a former engine
at the same site that is cleared late; that is no clearing of this one.
-/

import Suggest.Engine
import Suggest.Proofs.Cache.Held
import Suggest.Proofs.Catalog.Snapshots

namespace Suggest
namespace Engine

/-- What can happen to an engine, and around it. -/
inductive Event where
  /-- A new engine takes its place, with settings of its own but for the key. -/
  | restart (settings : Settings)
  | build (force : Bool)
  | search (query : String) (limit : Nat) (categories : Option (List String))
  | prefixSearch (query : String) (limit : Nat)
  | keywordSearch (query : String) (limit : Nat)
  | prefixOrSubstringSearch (query : String) (limit : Nat) (includeSubstring : Bool)
  | hybridSearch (query : String) (limit : Nat) (preferPrefix : Bool)
  | exportSnapshot
  | clear
  | onChange (change : Change)
  | shutdown
  /-- Somebody reads the cache. -/
  | lookUp (key : String)
  | catalogChanges (change : Catalog.Source → Catalog.Source)
  | catalogFails (outage : Catalog.Outage)
  /-- Something is about to happen in the middle of the next scan. -/
  | interruption (pending : Option Interruption)
  | time (now : Moment)

/-- The engine after an event. -/
def Event.run (e : Engine) : Event → Engine
  | .restart settings => e.restart { settings with cacheKey := e.settings.cacheKey }
  | .build force => (e.build force).2
  | .search query limit categories => (e.search? query limit categories).2
  | .prefixSearch query limit => (e.prefixSearch? query limit).2
  | .keywordSearch query limit => (e.keywordSearch? query limit).2
  | .prefixOrSubstringSearch query limit includeSubstring =>
    (e.prefixOrSubstringSearch? query limit includeSubstring).2
  | .hybridSearch query limit preferPrefix => (e.hybridSearch? query limit preferPrefix).2
  | .exportSnapshot => e.exportSnapshot.2
  | .clear => e.clear.2
  | .onChange change => (e.onChange change).2
  | .shutdown => e.shutdown
  | .lookUp key => e.withCache (e.site.cache.get e.site.cacheOutage e.site.now key).2
  | .catalogChanges change => { e with site := { e.site with source := change e.site.source } }
  | .catalogFails outage => { e with site := { e.site with catalogOutage := outage } }
  | .interruption pending => { e with site := { e.site with pending } }
  | .time now => { e with site := { e.site with now } }

/-- A build: the index of what was scanned, and how often the engine had been cleared when the scan began and when it
ended. -/
structure Build where
  index : Index
  began : Nat
  ended : Nat

/-- Whether the engine was cleared while the catalog was scanned. -/
def Build.overtaken (b : Build) : Bool := b.began ≠ b.ended

/-- How often an engine was cleared, and its builds, the latest first. -/
structure Past where
  clears : Nat := 0
  builds : List Build := []

/-- The latest build that was not overtaken. -/
def Past.latest? (p : Past) : Option Build := p.builds.find? fun b => !b.overtaken

/-- Whether the index is that of the latest build that was not overtaken, and the engine was not cleared since its scan
began. -/
def Past.Valid (p : Past) (i : Index) : Prop := ∃ b, p.latest? = some b ∧ b.began = p.clears ∧ b.index = i

/-- How often an interruption clears the engine at the site: not at all if it clears another one. -/
def clearsOf (clears : Option Clearing) : Nat := if clears = some .current then 1 else 0

/-- How often the engine at a site is cleared in the middle of a scan that starts now. -/
def clearsInScan (s : Site) : Nat := clearsOf (s.interruption.bind Interruption.clears)

/-- The past after a scan. -/
def Past.scanned (p : Past) (e : Engine) : Past :=
  let ended := p.clears + clearsInScan e.site
  match e.scan.1 with
  | .ok records => ⟨ended, ⟨records.index, p.clears, ended⟩ :: p.builds⟩
  | .error _ => ⟨ended, p.builds⟩

/-- Whether an event is that the engine is cleared. -/
def Event.isClear : Event → Bool
  | .clear | .onChange _ => true
  | _ => false

/-- The past after an event: there was a scan if the engine counts one more. -/
def Past.next (p : Past) (e : Engine) (ev : Event) : Past :=
  if (ev.run e).site.scans ≠ e.site.scans then p.scanned e
  else if ev.isClear then { p with clears := p.clears + 1 }
  else p

/-- An engine and its past after events. -/
def runAll (e : Engine) (p : Past) : List Event → Engine × Past
  | [] => (e, p)
  | ev :: rest => runAll (ev.run e) (p.next e ev) rest

/-- Whether the length of the snapshot of a build fits 64 bits. -/
def Build.Fits (b : Build) : Prop := (Text.bytes (Snapshot.encode b.index)).length < 1 <<< 64

/-- Whether what is cached and what is loaded are both the index of the latest build, the cached one as its snapshot. -/
structure Coherent (key : String) (e : Engine) (p : Past) : Prop where
  keyed : e.settings.cacheKey = key
  intact : e.site.cacheOutage = {}
  indexed : ∀ b ∈ p.builds, ∃ records : Catalog.Records, b.index = records.index
  cached : ∀ payload, e.site.cache.held key = some payload →
    ∃ i, p.Valid i ∧ payload = Text.bytes (Snapshot.encode i)
  loaded : e.loaded = true → p.Valid e.current

variable {key : String} {e : Engine} {p : Past}

/-- The bytes of a snapshot are those of what is written. -/
theorem bytes_encode (i : Index) : Text.bytes (Snapshot.encode i) = Text.utf8 (Snapshot.write i) :=
  Snapshot.bytes_text _

theorem cached_eq (e : Engine) :
    e.cached = ((e.site.cache.get e.site.cacheOutage e.site.now e.settings.cacheKey).1,
      e.withCache (e.site.cache.get e.site.cacheOutage e.site.now e.settings.cacheKey).2) := by
  rw [Engine.cached]

/-- **Bytes that a cache answers with are the snapshot of the latest build.** -/
theorem Coherent.valid_of_cached (h : Coherent key e p) (hfits : ∀ b ∈ p.builds, b.Fits) {bytes : Bytes}
    (hbytes : e.cached.1 = .ok (some bytes)) : ∃ i, p.Valid i ∧ Snapshot.decode bytes = .ok (.version 3, i) := by
  rw [cached_eq, h.keyed] at hbytes
  obtain ⟨i, hvalid, hi⟩ := h.cached bytes (Cache.held_of_get hbytes)
  obtain ⟨b, hb, -, hb'⟩ := id hvalid
  have hmem : b ∈ p.builds := List.mem_of_find?_eq_some hb
  obtain ⟨records, hrecords⟩ := h.indexed b hmem
  have hlength := hfits b hmem
  rw [Build.Fits, hrecords] at hlength
  refine ⟨i, hvalid, ?_⟩
  rw [hi, ← hb', hrecords]
  exact Catalog.decode_encode_index hlength

/-- Reading the cache leaves an engine coherent. -/
theorem Coherent.lookUp (h : Coherent key e p) (other : String) :
    Coherent key (e.withCache (e.site.cache.get e.site.cacheOutage e.site.now other).2) p where
  keyed := h.keyed
  intact := h.intact
  indexed := h.indexed
  cached payload hp := h.cached payload (Cache.held_of_held_get hp)
  loaded := h.loaded

/-- Whether the sites of two engines differ in nothing but the cache. -/
def Alike (e f : Engine) : Prop := { f.site with cache := e.site.cache } = e.site

theorem alike_withCache (e : Engine) (cache : Cache) : Alike e (e.withCache cache) := rfl

/-- **Loading leaves an engine coherent,** and of its site only the cache is touched. -/
theorem Coherent.load (h : Coherent key e p) (hfits : ∀ b ∈ p.builds, b.Fits) :
    Coherent key e.load.2 p ∧ Alike e e.load.2 := by
  have hlookUp := h.lookUp e.settings.cacheKey
  have halike := alike_withCache e (e.site.cache.get e.site.cacheOutage e.site.now e.settings.cacheKey).2
  unfold Engine.load
  rw [cached_eq]
  dsimp only
  split
  · next bytes hbytes =>
    obtain ⟨i, hvalid, hdecode⟩ := h.valid_of_cached hfits (by rw [cached_eq]; exact hbytes)
    rw [hdecode]
    exact ⟨⟨hlookUp.keyed, hlookUp.intact, hlookUp.indexed, hlookUp.cached, fun _ => hvalid⟩, rfl⟩
  · exact ⟨hlookUp, halike⟩

/-- An engine that is cleared has nothing cached and nothing loaded. -/
theorem Coherent.clear (h : Coherent key e p) : Coherent key e.clear.2 { p with clears := p.clears + 1 } := by
  have hnone : (e.site.cache.delete e.site.cacheOutage key).2.held key = none :=
    Cache.held_delete (by rw [h.intact]) key
  rw [Engine.clear]
  refine ⟨h.keyed, h.intact, h.indexed, fun payload hp => ?_, fun hl => by cases hl⟩
  rw [h.keyed] at hp
  cases hnone.symm.trans hp

/-- A former engine that is cleared can only take the cached index away. -/
theorem Coherent.delete (h : Coherent key e p) (other : String) :
    Coherent key (e.withCache (e.site.cache.delete e.site.cacheOutage other).2) p where
  keyed := h.keyed
  intact := h.intact
  indexed := h.indexed
  cached payload hp := h.cached payload (Cache.held_of_held_delete hp)
  loaded := h.loaded

/-- What happens to the catalog, to the time and in the middle of a scan does not matter to what is served. -/
theorem Coherent.withSite (h : Coherent key e p) {site : Site} (hcache : site.cache = e.site.cache)
    (hintact : site.cacheOutage = e.site.cacheOutage) : Coherent key { e with site } p where
  keyed := h.keyed
  intact := hintact.trans h.intact
  indexed := h.indexed
  cached payload hp := h.cached payload (by rw [← hcache]; exact hp)
  loaded := h.loaded

/-- The clearing in the middle of a scan goes into the past if it is one of this engine. -/
theorem Coherent.clearOne (h : Coherent key e p) (clears : Option Clearing) :
    Coherent key (clears.elim e e.clearOne) { p with clears := p.clears + clearsOf clears } ∧
      (clears.elim e e.clearOne).generation = e.generation + clearsOf clears ∧
      (clears.elim e e.clearOne).site.scans = e.site.scans := by
  cases clears with
  | none => exact ⟨h, rfl, rfl⟩
  | some which =>
    cases which with
    | current => exact ⟨h.clear, rfl, rfl⟩
    | former other => exact ⟨h.delete other, rfl, rfl⟩

/-- **In the middle of a scan** an engine stays coherent with its past, which goes on if the engine is cleared. -/
theorem Coherent.scan (h : Coherent key e p) :
    Coherent key e.scan.2 { p with clears := p.clears + clearsInScan e.site } ∧
      e.scan.2.generation = e.generation + clearsInScan e.site ∧ e.scan.2.site.scans = e.site.scans + 1 := by
  have hinterruption : Site.interruption { e.site with scans := e.site.scans + 1 } = e.site.interruption := rfl
  rw [Engine.scan]
  dsimp only
  rw [hinterruption, clearsInScan]
  cases e.site.interruption with
  | none => exact ⟨h.withSite rfl rfl, rfl, rfl⟩
  | some i =>
    have hstart : Coherent key { e with site := { e.site with scans := e.site.scans + 1, pending := none } } p :=
      h.withSite rfl rfl
    obtain ⟨hcoherent, hgeneration, hscans⟩ := hstart.clearOne i.clears
    dsimp only [Engine.interrupt]
    cases i.upserts with
    | none => exact ⟨hcoherent, hgeneration, hscans⟩
    | some item => exact ⟨hcoherent.withSite rfl rfl, hgeneration, hscans⟩

/-- An engine that saves the index of the latest build is coherent, whatever was cached before. -/
theorem coherent_save (hkeyed : e.settings.cacheKey = key) (hintact : e.site.cacheOutage = {})
    (hindexed : ∀ b ∈ p.builds, ∃ records : Catalog.Records, b.index = records.index)
    (hloaded : e.loaded = true → p.Valid e.current) {i : Index} (hvalid : p.Valid i)
    (hlength : (Text.bytes (Snapshot.encode i)).length < 1 <<< 64) : Coherent key (e.save i) p := by
  have hset : e.site.cacheOutage.set = false := by rw [hintact]
  have hheld : (e.save i).site.cache.held key = some (Text.bytes (Snapshot.encode i)) := by
    rw [Engine.save, hkeyed]
    exact Cache.held_set hset hlength
  refine ⟨hkeyed, hintact, hindexed, fun payload hp => ⟨i, hvalid, ?_⟩, hloaded⟩
  exact Option.some.inj (hp.symm.trans hheld)

/-- **After a build** an engine is coherent with a past that has the build in it. -/
theorem Coherent.rebuild (h : Coherent key e p) (hfits : ∀ b ∈ (p.scanned e).builds, b.Fits) :
    Coherent key e.rebuild.2 (p.scanned e) := by
  obtain ⟨hscan, hgeneration, -⟩ := h.scan
  rw [Past.scanned] at hfits ⊢
  rw [Engine.rebuild]
  dsimp only at hfits ⊢
  cases hrecords : e.scan.1 with
  | error f => exact hscan
  | ok records =>
    rw [hrecords] at hfits
    dsimp only at hfits ⊢
    rw [hgeneration]
    have hindexed : ∀ b ∈ (⟨records.index, p.clears, p.clears + clearsInScan e.site⟩ :: p.builds : List Build),
        ∃ records : Catalog.Records, b.index = records.index := by
      intro b hb
      rcases List.mem_cons.1 hb with rfl | hb
      · exact ⟨records, rfl⟩
      · exact h.indexed b hb
    by_cases hclears : clearsInScan e.site = 0
    · -- nothing overtook the build, so it is the latest one
      rw [hclears] at hfits hindexed ⊢
      have hvalid : Past.Valid ⟨p.clears + 0, ⟨records.index, p.clears, p.clears + 0⟩ :: p.builds⟩ records.index :=
        ⟨_, List.find?_cons_of_pos (by simp [Build.overtaken]), rfl, rfl⟩
      have hlength := hfits _ List.mem_cons_self
      rw [if_pos (by simp)]
      refine coherent_save ?_ ?_ hindexed (fun _ => hvalid) hvalid hlength
      · exact hscan.keyed
      · exact hscan.intact
    · -- the build was overtaken, so nothing is said about it
      have hlatest : Past.latest? ⟨p.clears + clearsInScan e.site,
          ⟨records.index, p.clears, p.clears + clearsInScan e.site⟩ :: p.builds⟩ = p.latest? :=
        List.find?_cons_of_neg (by simpa [Build.overtaken] using hclears)
      rw [if_neg (by simp [hclears])]
      refine ⟨hscan.keyed, hscan.intact, hindexed, fun payload hp => ?_, fun hl => ?_⟩
      · obtain ⟨i, ⟨b, hb, hbegan, hi⟩, hpayload⟩ := hscan.cached payload hp
        exact ⟨i, ⟨b, hlatest.trans hb, hbegan, hi⟩, hpayload⟩
      · simp [hclears] at hl

theorem scans_rebuild (h : Coherent key e p) : e.rebuild.2.site.scans = e.site.scans + 1 := by
  obtain ⟨-, -, hscans⟩ := h.scan
  rw [Engine.rebuild]
  dsimp only
  cases e.scan.1 with
  | error f => exact hscans
  | ok records =>
    dsimp only
    split
    · exact hscans
    · exact hscans

/-- What is scanned is the catalog, with what is put into it in the middle of the scan. -/
theorem scan_fst (e : Engine) :
    e.scan.1 = Site.records { e.site with
      source := (e.site.interruption.bind Interruption.upserts).elim e.site.source fun item =>
        e.site.source.modify (·.upsertItem item) } := by
  have hinterruption : Site.interruption { e.site with scans := e.site.scans + 1 } = e.site.interruption := rfl
  rw [Engine.scan]
  dsimp only
  rw [hinterruption]
  cases e.site.interruption with
  | none => rfl
  | some i =>
    obtain ⟨clears, upserts⟩ := i
    rcases clears with _ | _ | _ <;> cases upserts <;> rfl

/-- Engines that are alike scan the same. -/
theorem Alike.scanned {f : Engine} (h : Alike e f) (p : Past) : p.scanned f = p.scanned e := by
  unfold Alike at h
  have hclears : clearsInScan f.site = clearsInScan e.site := by
    rw [← h]
    rfl
  have hscan : f.scan.1 = e.scan.1 := by
    rw [scan_fst, scan_fst, ← h]
    rfl
  rw [Past.scanned, Past.scanned, hclears, hscan]

theorem Alike.scans {f : Engine} (h : Alike e f) : f.site.scans = e.site.scans := by
  unfold Alike at h
  rw [← h]

/-- What a call comes to that may have the engine build: no scan and the same past, or one scan. -/
def Settles (key : String) (e : Engine) (p : Past) (f : Engine) : Prop :=
  f.site.scans = e.site.scans ∧ Coherent key f p ∨
    f.site.scans = e.site.scans + 1 ∧ ((∀ b ∈ (p.scanned e).builds, b.Fits) → Coherent key f (p.scanned e))

theorem Coherent.build (h : Coherent key e p) (hfits : ∀ b ∈ p.builds, b.Fits) (force : Bool) :
    Settles key e p (e.build force).2 := by
  rw [Engine.build]
  split
  · exact .inr ⟨scans_rebuild h, h.rebuild⟩
  split
  · exact .inl ⟨rfl, h⟩
  · obtain ⟨hload, halike⟩ := h.load hfits
    dsimp only
    split
    · exact .inl ⟨halike.scans, hload⟩
    · refine .inr ⟨by rw [scans_rebuild hload, halike.scans], fun hscanned => ?_⟩
      rw [← halike.scanned p] at hscanned ⊢
      exact hload.rebuild hscanned

theorem Coherent.prepare (h : Coherent key e p) (hfits : ∀ b ∈ p.builds, b.Fits) : Settles key e p e.prepare := by
  rw [Engine.prepare]
  split
  · exact .inl ⟨rfl, h⟩
  · exact h.build hfits false

/-- After a call that may have the engine build, it is coherent with the past after the call. -/
theorem Settles.next {ev : Event} (h : Settles key e p (ev.run e)) (hclear : ev.isClear = false)
    (hnext : ∀ b ∈ (p.next e ev).builds, b.Fits) : Coherent key (ev.run e) (p.next e ev) := by
  rw [Past.next] at hnext ⊢
  rcases h with ⟨hscans, h⟩ | ⟨hscans, h⟩
  · rw [if_neg (not_not.2 hscans), hclear]
    exact h
  · rw [if_pos (by omega)] at hnext ⊢
    exact h hnext

theorem Coherent.restart (h : Coherent key e p) (hfits : ∀ b ∈ p.builds, b.Fits) (settings : Settings)
    (hkey : settings.cacheKey = key) :
    Coherent key (e.restart settings) p ∧ (e.restart settings).site.scans = e.site.scans := by
  have hbase : Coherent key
      { settings, site := { e.site with pending := e.site.pending.map (·.outlive e.settings.cacheKey) } } p :=
    ⟨hkey, h.intact, h.indexed, h.cached, fun hl => by cases hl⟩
  obtain ⟨hload, halike⟩ := hbase.load hfits
  exact ⟨hload, halike.scans⟩

theorem Coherent.search (h : Coherent key e p) (hfits : ∀ b ∈ p.builds, b.Fits) (query : String) (limit : Nat)
    (categories : Option (List String)) : Settles key e p (e.search? query limit categories).2 := by
  rw [Engine.search?]
  dsimp only
  split
  · exact .inl ⟨rfl, h⟩
  · exact h.prepare hfits

/-- **A new engine with the key of the old one serves what is cached,** without a scan. -/
theorem Coherent.loaded_restart (h : Coherent key e p) (hfits : ∀ b ∈ p.builds, b.Fits) (settings : Settings)
    (hkey : settings.cacheKey = key) {bytes : Bytes}
    (hbytes : (e.site.cache.get e.site.cacheOutage e.site.now key).1 = .ok (some bytes)) :
    (e.restart settings).loaded = true := by
  have hbase : Coherent key
      { settings, site := { e.site with pending := e.site.pending.map (·.outlive e.settings.cacheKey) } } p :=
    ⟨hkey, h.intact, h.indexed, h.cached, fun hl => by cases hl⟩
  rw [← hkey] at hbytes
  obtain ⟨i, -, hdecode⟩ := hbase.valid_of_cached hfits (by rw [cached_eq]; exact hbytes)
  rw [Engine.restart, Engine.start, Engine.load, cached_eq]
  dsimp only
  rw [hbytes]
  dsimp only
  rw [hdecode]

/-- **Every event leaves an engine coherent with its past.** -/
theorem Coherent.step (h : Coherent key e p) (ev : Event) (hfits : ∀ b ∈ p.builds, b.Fits)
    (hnext : ∀ b ∈ (p.next e ev).builds, b.Fits) : Coherent key (ev.run e) (p.next e ev) := by
  have hsettles : ev.isClear = false → Settles key e p (ev.run e) → Coherent key (ev.run e) (p.next e ev) :=
    fun hclear hs => hs.next hclear hnext
  cases ev with
  | restart settings =>
    obtain ⟨hrestart, hscans⟩ := h.restart hfits { settings with cacheKey := e.settings.cacheKey } h.keyed
    exact hsettles rfl (.inl ⟨hscans, hrestart⟩)
  | build force => exact hsettles rfl (h.build hfits force)
  | search query limit categories => exact hsettles rfl (h.search hfits query limit categories)
  | prefixSearch | keywordSearch | prefixOrSubstringSearch | hybridSearch => exact hsettles rfl (h.prepare hfits)
  | exportSnapshot => exact hsettles rfl (h.build hfits false)
  | clear =>
    have hscans : (Event.run e .clear).site.scans = e.site.scans := rfl
    have hclear : Event.isClear .clear = true := rfl
    rw [Past.next, if_neg (not_not.2 hscans), if_pos hclear]
    exact h.clear
  | onChange change =>
    have hscans : (Event.run e (.onChange change)).site.scans = e.site.scans := rfl
    have hclear : Event.isClear (.onChange change) = true := rfl
    rw [Past.next, if_neg (not_not.2 hscans), if_pos hclear]
    exact h.clear
  | shutdown => exact hsettles rfl (.inl ⟨rfl, h.keyed, h.intact, h.indexed, h.cached, fun hl => by cases hl⟩)
  | lookUp other => exact hsettles rfl (.inl ⟨rfl, h.lookUp other⟩)
  | catalogChanges | catalogFails | interruption | time => exact hsettles rfl (.inl ⟨rfl, h.withSite rfl rfl⟩)

theorem builds_subset_next (p : Past) (e : Engine) (ev : Event) {b : Build} (hb : b ∈ p.builds) :
    b ∈ (p.next e ev).builds := by
  rw [Past.next, Past.scanned]
  split
  · split
    · exact List.mem_cons_of_mem _ hb
    · exact hb
  · split <;> exact hb

theorem builds_subset_runAll (events : List Event) (e : Engine) (p : Past) {b : Build} (hb : b ∈ p.builds) :
    b ∈ (runAll e p events).2.builds := by
  induction events generalizing e p with
  | nil => exact hb
  | cons ev rest ih => exact ih _ _ (builds_subset_next p e ev hb)

/-- **Every run leaves an engine coherent with its past.** -/
theorem Coherent.runAll (h : Coherent key e p) (events : List Event)
    (hfits : ∀ b ∈ (runAll e p events).2.builds, b.Fits) :
    Coherent key (runAll e p events).1 (Engine.runAll e p events).2 := by
  induction events generalizing e p with
  | nil => exact h
  | cons ev rest ih =>
    refine ih (h.step ev (fun b hb => hfits b ?_) fun b hb => hfits b ?_) hfits
    · exact builds_subset_runAll rest _ _ (builds_subset_next p e ev hb)
    · exact builds_subset_runAll rest _ _ hb

/-- A new engine at a site where nothing is cached is coherent with an empty past. -/
theorem coherent_start {settings : Settings} {site : Site} (hcache : site.cache.held settings.cacheKey = none)
    (hintact : site.cacheOutage = {}) : Coherent settings.cacheKey (start settings site) {} := by
  have hbase : Coherent settings.cacheKey ({ settings, site } : Engine) ({} : Past) := by
    refine ⟨rfl, hintact, fun b hb => ?_, fun payload hp => ?_, fun hl => ?_⟩
    · cases hb
    · cases hcache.symm.trans hp
    · cases hl
  exact (hbase.load fun b hb => absurd hb List.not_mem_nil).1

/-- **Coherence of the cache with what is served.**  After any run of an engine that starts with nothing cached, what the
cache answers with is the snapshot of the latest build that was not overtaken, and the engine was not cleared since the scan
of that build began; what is loaded is the index of that build; and a new engine with the same key, if there is an answer,
serves that index without a scan.  (The snapshots of the builds must have lengths that fit 64 bits.) -/
theorem coherent_runAll {settings : Settings} {site : Site} (hcache : site.cache.held settings.cacheKey = none)
    (hintact : site.cacheOutage = {}) (events : List Event)
    (hfits : ∀ b ∈ (runAll (start settings site) {} events).2.builds, b.Fits) {e : Engine} {p : Past}
    (hrun : runAll (start settings site) {} events = (e, p)) :
    (∀ bytes, (e.site.cache.get e.site.cacheOutage e.site.now settings.cacheKey).1 = .ok (some bytes) →
      ∃ b, p.latest? = some b ∧ b.began = p.clears ∧ Snapshot.decode bytes = .ok (.version 3, b.index)) ∧
    (e.loaded = true → ∃ b, p.latest? = some b ∧ b.began = p.clears ∧ e.current = b.index) ∧
    (∀ later : Settings, later.cacheKey = settings.cacheKey → ∀ bytes,
      (e.site.cache.get e.site.cacheOutage e.site.now settings.cacheKey).1 = .ok (some bytes) →
        (e.restart later).loaded = true ∧ (e.restart later).site.scans = e.site.scans ∧
          ∃ b, p.latest? = some b ∧ b.began = p.clears ∧ (e.restart later).current = b.index) := by
  have h : Coherent settings.cacheKey e p := by
    have hall := (coherent_start hcache hintact).runAll events hfits
    rw [hrun] at hall
    exact hall
  rw [hrun] at hfits
  refine ⟨fun bytes hbytes => ?_, fun hl => ?_, fun later hkey bytes hbytes => ?_⟩
  · rw [← h.keyed] at hbytes
    obtain ⟨i, ⟨b, hb, hbegan, rfl⟩, hdecode⟩ := h.valid_of_cached hfits (by rw [cached_eq]; exact hbytes)
    exact ⟨b, hb, hbegan, hdecode⟩
  · obtain ⟨b, hb, hbegan, hi⟩ := h.loaded hl
    exact ⟨b, hb, hbegan, hi.symm⟩
  · obtain ⟨hrestart, hscans⟩ := h.restart hfits later hkey
    have hl := h.loaded_restart hfits later hkey hbytes
    obtain ⟨b, hb, hbegan, hi⟩ := hrestart.loaded hl
    exact ⟨hl, hscans, b, hb, hbegan, hi.symm⟩

/-- A site with one item in its catalog and nothing in its cache. -/
def oneItem : Site where
  source := .store { items := [{ id := "1", name := "ab" }] }
  cache := .memory {}
  now := 0

/-- It is built, cleared, and built by a search while it is cleared once more; then the index is built again. -/
def overtakenOnce : List Event :=
  [.build true, .clear, .interruption (some { clears := some .current }), .prefixSearch "a" 1, .build false]

theorem coherent_runAll_overtakenOnce :
    ((runAll (start {} oneItem) {} overtakenOnce).1.loaded = true ∧
      (runAll (start {} oneItem) {} overtakenOnce).2.builds.map (fun b => (b.began, b.ended)) =
        [(2, 2), (1, 2), (0, 0)]) ∧
    ∃ b, (runAll (start {} oneItem) {} overtakenOnce).2.latest? = some b ∧ b.began = 2 ∧
      (runAll (start {} oneItem) {} overtakenOnce).1.current = b.index := by
  have hloaded : (runAll (start {} oneItem) {} overtakenOnce).1.loaded = true := by decide +kernel
  have hbuilds : (runAll (start {} oneItem) {} overtakenOnce).2.builds.map (fun b => (b.began, b.ended)) =
      [(2, 2), (1, 2), (0, 0)] := by decide +kernel
  have hclears : (runAll (start {} oneItem) {} overtakenOnce).2.clears = 2 := by decide +kernel
  have hfits : ∀ b ∈ (runAll (start {} oneItem) {} overtakenOnce).2.builds, b.Fits := by
    simp only [Build.Fits, bytes_encode]
    decide +kernel
  obtain ⟨-, hcurrent, -⟩ := coherent_runAll rfl rfl overtakenOnce hfits rfl
  obtain ⟨b, hb, hbegan, hi⟩ := hcurrent hloaded
  exact ⟨⟨hloaded, hbuilds⟩, b, hb, hbegan.trans hclears, hi⟩

end Engine
end Suggest
