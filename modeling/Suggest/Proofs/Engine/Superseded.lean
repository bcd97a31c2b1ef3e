/-
# Which index comes back after a failed save

The cache of an engine may fail to answer and to store, but not to delete (`Engine.Incident`).  Beside the engine runs its
chronicle (`Engine.Chronicle`): how often it was cleared, and its builds, each with whether its snapshot was saved.  What is
cached and what is loaded are then indexes of builds that nothing overtook, since whose scan the engine was not cleared, and
after which no other build was saved (`Chronicle.Standing`).  Every incident keeps that up (`Supported.step`), so it holds
after every run (`loaded_runIncidents`).

So no older index is loaded again once the snapshot of a newer one was saved.  But it is if that failed: then the cache keeps
the snapshot of the older one, and an engine that was shut down loads that (`loaded_superseded`).
-/

import Suggest.Proofs.Engine.Clearing

namespace Suggest
namespace Engine

/-- A build and whether its snapshot was saved. -/
structure Edition where
  build : Build
  saved : Bool

/-- How often an engine was cleared, and the editions of its index, the latest first. -/
structure Chronicle where
  clears : Nat := 0
  editions : List Edition := []

/-- The chronicle after a scan.  What is built is saved if nothing overtakes it and the cache can store it. -/
def Chronicle.scanned (c : Chronicle) (e : Engine) : Chronicle :=
  let ended := c.clears + clearsInScan e.site
  match e.scan.1 with
  | .ok records =>
    ⟨ended, ⟨⟨records.index, c.clears, ended⟩, clearsInScan e.site = 0 && !e.site.cacheOutage.set⟩ :: c.editions⟩
  | .error _ => ⟨ended, c.editions⟩

/-- The chronicle after an incident: there was a scan if the engine counts one more. -/
def Chronicle.next (c : Chronicle) (e : Engine) : Incident → Chronicle
  | .event ev =>
    if (ev.run e).site.scans ≠ e.site.scans then c.scanned e
    else if ev.isClear then { c with clears := c.clears + 1 }
    else c
  | .cacheFails _ => c

/-- An engine and its chronicle after incidents. -/
def runIncidents (e : Engine) (c : Chronicle) : List Incident → Engine × Chronicle
  | [] => (e, c)
  | i :: rest => runIncidents (i.run e) (c.next e i) rest

/-- Whether an index is that of a build that nothing overtook, since whose scan the engine was not cleared, and every later
build was overtaken or not saved. -/
def Chronicle.Standing (c : Chronicle) (i : Index) : Prop :=
  ∃ newer edition older, c.editions = newer ++ edition :: older ∧ edition.build.index = i ∧
    edition.build.overtaken = false ∧ edition.build.began = c.clears ∧
    ∀ later ∈ newer, later.build.overtaken = true ∨ later.saved = false

/-- Whether what is cached and what is loaded are both indexes that stand, the cached one as its snapshot. -/
structure Supported (key : String) (e : Engine) (c : Chronicle) : Prop where
  keyed : e.settings.cacheKey = key
  deletes : e.site.cacheOutage.delete = false
  indexed : ∀ edition ∈ c.editions, ∃ records : Catalog.Records, edition.build.index = records.index
  cached : ∀ payload, e.site.cache.held key = some payload →
    ∃ i, c.Standing i ∧ payload = Text.bytes (Snapshot.encode i)
  loaded : e.loaded = true → c.Standing e.current

variable {key : String} {e : Engine} {c : Chronicle} {i : Index}

theorem Chronicle.Standing.mem (h : c.Standing i) : ∃ edition ∈ c.editions, edition.build.index = i := by
  obtain ⟨newer, edition, older, heditions, hi, -⟩ := h
  exact ⟨edition, by rw [heditions]; simp, hi⟩

/-- What is not saved makes no difference to what stands. -/
theorem Chronicle.Standing.cons (h : c.Standing i) {edition : Edition} (hedition : edition.saved = false) :
    (Chronicle.mk c.clears (edition :: c.editions)).Standing i := by
  obtain ⟨newer, first, older, heditions, hi, hovertaken, hbegan, hnewer⟩ := h
  refine ⟨edition :: newer, first, older, by rw [heditions]; rfl, hi, hovertaken, hbegan, fun later hlater => ?_⟩
  rcases List.mem_cons.1 hlater with rfl | hlater
  · exact .inr hedition
  · exact hnewer later hlater

/-- What was built last stands, if nothing overtook it. -/
theorem standing_cons (clears : Nat) (i : Index) (saved : Bool) (editions : List Edition) :
    (Chronicle.mk clears (⟨⟨i, clears, clears⟩, saved⟩ :: editions)).Standing i :=
  ⟨[], _, editions, rfl, rfl, by simp [Build.overtaken], rfl, fun _ h => by cases h⟩

namespace Supported

/-- **Bytes that a cache answers with are the snapshot of an index that stands.** -/
theorem standing_of_get (h : Supported key e c) (hfits : ∀ edition ∈ c.editions, edition.build.Fits) {bytes : Bytes}
    (hbytes : (e.site.cache.get e.site.cacheOutage e.site.now e.settings.cacheKey).1 = .ok (some bytes)) :
    ∃ i, c.Standing i ∧ Snapshot.decode bytes = .ok (.version 3, i) := by
  rw [h.keyed] at hbytes
  obtain ⟨i, hstanding, hi⟩ := h.cached bytes (Cache.held_of_get hbytes)
  obtain ⟨edition, hmem, hindex⟩ := hstanding.mem
  obtain ⟨records, hrecords⟩ := h.indexed edition hmem
  have hlength := hfits edition hmem
  rw [Build.Fits, hrecords] at hlength
  refine ⟨i, hstanding, ?_⟩
  rw [hi, ← hindex, hrecords]
  exact Catalog.decode_encode_index hlength

/-- Reading the cache leaves an engine supported. -/
theorem lookUp (h : Supported key e c) (other : String) :
    Supported key (e.withCache (e.site.cache.get e.site.cacheOutage e.site.now other).2) c where
  keyed := h.keyed
  deletes := h.deletes
  indexed := h.indexed
  cached payload hp := h.cached payload (Cache.held_of_held_get hp)
  loaded := h.loaded

theorem lookedUp (h : Supported key e c) : Supported key e.lookedUp c := h.lookUp e.settings.cacheKey

/-- An engine that loads what was cached is supported. -/
theorem loading (h : Supported key e c) (hfits : ∀ edition ∈ c.editions, edition.build.Fits) {bytes : Bytes}
    (hbytes : (e.site.cache.get e.site.cacheOutage e.site.now e.settings.cacheKey).1 = .ok (some bytes))
    {form : Snapshot.Form} (hdecode : Snapshot.decode bytes = .ok (form, i)) :
    Supported key { e.lookedUp with served := some i, loaded := true } c := by
  obtain ⟨j, hstanding, hj⟩ := h.standing_of_get hfits hbytes
  cases hdecode.symm.trans hj
  exact ⟨h.keyed, h.deletes, h.indexed, h.lookedUp.cached, fun _ => hstanding⟩

theorem load (h : Supported key e c) (hfits : ∀ edition ∈ c.editions, edition.build.Fits) : Supported key e.load.2 c := by
  rcases load_cases e with ⟨bytes, form, i, hbytes, hdecode, heq⟩ | heq <;> rw [heq]
  · exact h.loading hfits hbytes hdecode
  · exact h.lookedUp

/-- An engine that is cleared has nothing cached and nothing loaded. -/
theorem clear (h : Supported key e c) : Supported key e.clear.2 { c with clears := c.clears + 1 } := by
  refine ⟨h.keyed, h.deletes, h.indexed, fun payload hp => ?_, fun hl => by cases hl⟩
  have hnone := held_clear h.deletes
  rw [h.keyed] at hnone
  cases hnone.symm.trans hp

/-- A scan in which an engine is cleared leaves it with nothing, and any other scan leaves it as it was. -/
theorem scan (h : Supported key e c) : Supported key e.scan.2 { c with clears := c.clears + clearsInScan e.site } := by
  have hscan := scanned_scan e
  have hkeyed : e.scan.2.settings.cacheKey = key := by rw [hscan.settings, h.keyed]
  have hdeletes : e.scan.2.site.cacheOutage.delete = false := by rw [hscan.outage, h.deletes]
  by_cases hclears : clearsInScan e.site = 0
  · obtain ⟨hserved, hloaded⟩ := hscan.kept hclears
    rw [hclears]
    refine ⟨hkeyed, hdeletes, h.indexed, fun payload hp => h.cached payload (hscan.held key payload hp), fun hl => ?_⟩
    rw [current, hserved]
    exact h.loaded (hloaded ▸ hl)
  · obtain ⟨-, hloaded, hnone⟩ := hscan.dropped hclears
    refine ⟨hkeyed, hdeletes, h.indexed, fun payload hp => ?_, fun hl => ?_⟩
    · rw [← h.keyed, hnone h.deletes] at hp
      cases hp
    · cases hloaded.symm.trans hl

/-- A build that nothing overtook is loaded.  It is cached if it was saved, and otherwise what was cached stays. -/
theorem save (h : Supported key e c) (hindexed : ∃ records : Catalog.Records, i = records.index)
    (hlength : (Text.bytes (Snapshot.encode i)).length < 1 <<< 64) :
    Supported key (Engine.save { e with served := some i, loaded := true } i)
      ⟨c.clears, ⟨⟨i, c.clears, c.clears⟩, !e.site.cacheOutage.set⟩ :: c.editions⟩ := by
  have hstanding (saved : Bool) : (Chronicle.mk c.clears (⟨⟨i, c.clears, c.clears⟩, saved⟩ :: c.editions)).Standing i :=
    standing_cons c.clears i saved c.editions
  refine ⟨h.keyed, h.deletes, fun edition hmem => ?_, fun payload hp => ?_, fun _ => hstanding _⟩
  · rcases List.mem_cons.1 hmem with rfl | hmem
    · exact hindexed
    · exact h.indexed edition hmem
  · have hstored : (Engine.save { e with served := some i, loaded := true } i).site.cache =
        (e.site.cache.set e.site.cacheOutage e.site.now key (Text.bytes (Snapshot.encode i)) e.settings.lifetime).2 := by
      rw [← h.keyed]
      rfl
    rw [hstored] at hp
    cases hset : e.site.cacheOutage.set with
    | false =>
      rw [Cache.held_set hset hlength] at hp
      exact ⟨i, hstanding _, (Option.some.inj hp).symm⟩
    | true =>
      rw [Cache.set_of_fails _ hset] at hp
      obtain ⟨j, hj, hpayload⟩ := h.cached payload hp
      exact ⟨j, hj.cons rfl, hpayload⟩

/-- **After a build** an engine is supported by a chronicle that has the build in it. -/
theorem rebuild (h : Supported key e c) (hfits : ∀ edition ∈ (c.scanned e).editions, edition.build.Fits) :
    Supported key e.rebuild.2 (c.scanned e) := by
  have hscan := h.scan
  rw [Chronicle.scanned] at hfits ⊢
  rcases rebuild_cases e with ⟨_, hrecords, heq⟩ | ⟨records, hrecords, ⟨hclears, heq⟩ | ⟨hclears, heq⟩⟩ <;>
    rw [heq] <;> rw [hrecords] at hfits ⊢ <;> dsimp only at hfits ⊢
  · exact hscan
  · have hlength := hfits _ List.mem_cons_self
    rw [hclears] at hscan ⊢
    rw [← (scanned_scan e).outage]
    exact hscan.save ⟨records, rfl⟩ hlength
  · -- what was overtaken is served, but nothing is left in the cache
    obtain ⟨-, -, hnone⟩ := (scanned_scan e).dropped hclears
    refine ⟨hscan.keyed, hscan.deletes, fun edition hmem => ?_, fun payload hp => ?_, fun hl => by cases hl⟩
    · rcases List.mem_cons.1 hmem with rfl | hmem
      · exact ⟨records, rfl⟩
      · exact h.indexed edition hmem
    · rw [← h.keyed] at hp
      cases (hnone h.deletes).symm.trans hp

/-- A new engine with the same key has what is cached, if it can be loaded. -/
theorem restart (h : Supported key e c) (hfits : ∀ edition ∈ c.editions, edition.build.Fits) (settings : Settings)
    (hkey : settings.cacheKey = key) : Supported key (e.restart settings) c := by
  have hbase : Supported key
      { settings, site := { e.site with pending := e.site.pending.map (·.outlive e.settings.cacheKey) } } c :=
    ⟨hkey, h.deletes, h.indexed, h.cached, fun hl => by cases hl⟩
  exact hbase.load hfits

end Supported

/-- Whether a chronicle accounts for what a call made of an engine: no scan and nothing new, or one scan. -/
def Accounted (key : String) (e : Engine) (c : Chronicle) (f : Engine) : Prop :=
  f.site.scans = e.site.scans ∧ Supported key f c ∨
    f.site.scans = e.site.scans + 1 ∧
      ((∀ edition ∈ (c.scanned e).editions, edition.build.Fits) → Supported key f (c.scanned e))

theorem scanned_lookedUp (c : Chronicle) (e : Engine) : c.scanned e.lookedUp = c.scanned e := by
  rw [Chronicle.scanned, Chronicle.scanned, scan_lookedUp]
  rfl

theorem scans_load (e : Engine) : e.load.2.site.scans = e.site.scans := by
  rcases load_cases e with ⟨_, _, _, -, -, heq⟩ | heq <;> rw [heq] <;> rfl

theorem snd_build_false (e : Engine) : (e.build false).2 = e.prepare := by
  cases hloaded : e.loaded with
  | true => rw [prepare, if_pos hloaded, build, if_neg Bool.false_ne_true, if_pos hloaded]
  | false => rw [prepare, if_neg (by rw [hloaded]; exact Bool.false_ne_true)]

namespace Supported

theorem prepare (h : Supported key e c) (hfits : ∀ edition ∈ c.editions, edition.build.Fits) :
    Accounted key e c e.prepare := by
  rcases prepare_cases e with ⟨-, heq⟩ | ⟨-, bytes, form, i, hbytes, hdecode, heq⟩ | ⟨-, heq⟩ <;> rw [heq]
  · exact .inl ⟨rfl, h⟩
  · exact .inl ⟨rfl, h.loading hfits hbytes hdecode⟩
  · refine .inr ⟨scans_of_rebuild e.lookedUp, fun hscanned => ?_⟩
    rw [← scanned_lookedUp c e] at hscanned ⊢
    exact h.lookedUp.rebuild hscanned

theorem build (h : Supported key e c) (hfits : ∀ edition ∈ c.editions, edition.build.Fits) (force : Bool) :
    Accounted key e c (e.build force).2 := by
  cases force with
  | false => exact snd_build_false e ▸ h.prepare hfits
  | true => exact .inr ⟨scans_of_rebuild e, h.rebuild⟩

theorem search (h : Supported key e c) (hfits : ∀ edition ∈ c.editions, edition.build.Fits) (query : String) (limit : Nat)
    (categories : Option (List String)) : Accounted key e c (e.search? query limit categories).2 := by
  rw [Engine.search?]
  dsimp only
  split
  · exact .inl ⟨rfl, h⟩
  · exact h.prepare hfits

end Supported

/-- After a call that may have the engine build, it is supported by the chronicle after the call. -/
theorem Accounted.next {ev : Event} (h : Accounted key e c (ev.run e)) (hclear : ev.isClear = false)
    (hnext : ∀ edition ∈ (c.next e (.event ev)).editions, edition.build.Fits) :
    Supported key (ev.run e) (c.next e (.event ev)) := by
  rw [Chronicle.next] at hnext ⊢
  rcases h with ⟨hscans, h⟩ | ⟨hscans, h⟩
  · rw [if_neg (not_not.2 hscans), hclear]
    exact h
  · rw [if_pos (by omega)] at hnext ⊢
    exact h hnext

theorem Chronicle.next_of_isClear {ev : Event} (h : ev.isClear = true) :
    c.next e (.event ev) = { c with clears := c.clears + 1 } := by
  have hscans : (ev.run e).site.scans = e.site.scans := by
    cases ev with
    | clear | onChange => rfl
    | _ => cases h
  rw [Chronicle.next, if_neg (not_not.2 hscans), if_pos h]

/-- **Every incident leaves an engine supported by its chronicle,** if the cache can still delete. -/
theorem Supported.step (h : Supported key e c) {i : Incident}
    (hdeletes : ∀ outage, i = .cacheFails outage → outage.delete = false)
    (hfits : ∀ edition ∈ c.editions, edition.build.Fits) (hnext : ∀ edition ∈ (c.next e i).editions, edition.build.Fits) :
    Supported key (i.run e) (c.next e i) := by
  cases i with
  | cacheFails outage => exact ⟨h.keyed, hdeletes outage rfl, h.indexed, h.cached, h.loaded⟩
  | event ev =>
    have haccounted : ev.isClear = false → Accounted key e c (ev.run e) →
        Supported key (ev.run e) (c.next e (.event ev)) := fun hclear ha => ha.next hclear hnext
    cases ev with
    | restart settings =>
      have hrestart := h.restart hfits { settings with cacheKey := e.settings.cacheKey } h.keyed
      exact haccounted rfl (.inl ⟨scans_load _, hrestart⟩)
    | build force => exact haccounted rfl (h.build hfits force)
    | search query limit categories => exact haccounted rfl (h.search hfits query limit categories)
    | prefixSearch | keywordSearch | prefixOrSubstringSearch | hybridSearch => exact haccounted rfl (h.prepare hfits)
    | exportSnapshot => exact haccounted rfl (h.build hfits false)
    | clear | onChange =>
      rw [Chronicle.next_of_isClear rfl]
      exact h.clear
    | shutdown => exact haccounted rfl (.inl ⟨rfl, h.keyed, h.deletes, h.indexed, h.cached, fun hl => by cases hl⟩)
    | lookUp other => exact haccounted rfl (.inl ⟨rfl, h.lookUp other⟩)
    | catalogChanges | catalogFails | interruption | time =>
      exact haccounted rfl (.inl ⟨rfl, h.keyed, h.deletes, h.indexed, h.cached, h.loaded⟩)

theorem editions_subset_next (c : Chronicle) (e : Engine) (i : Incident) : c.editions ⊆ (c.next e i).editions := by
  intro edition hmem
  cases i with
  | cacheFails => exact hmem
  | event ev =>
    rw [Chronicle.next, Chronicle.scanned]
    split
    · split
      · exact List.mem_cons_of_mem _ hmem
      · exact hmem
    · split <;> exact hmem

theorem editions_subset_runIncidents (incidents : List Incident) (e : Engine) (c : Chronicle) :
    c.editions ⊆ (runIncidents e c incidents).2.editions := by
  induction incidents generalizing e c with
  | nil => exact fun _ h => h
  | cons i rest ih => exact fun _ h => ih _ _ (editions_subset_next c e i h)

theorem runIncidents_append (e : Engine) (c : Chronicle) (first rest : List Incident) :
    runIncidents e c (first ++ rest) = runIncidents (runIncidents e c first).1 (runIncidents e c first).2 rest := by
  induction first generalizing e c with
  | nil => rfl
  | cons i _ ih => exact ih (i.run e) (c.next e i)

/-- **Every run leaves an engine supported by its chronicle.** -/
theorem Supported.runIncidents (h : Supported key e c) {incidents : List Incident}
    (hdeletes : ∀ outage, .cacheFails outage ∈ incidents → outage.delete = false)
    (hfits : ∀ edition ∈ (runIncidents e c incidents).2.editions, edition.build.Fits) :
    Supported key (runIncidents e c incidents).1 (Engine.runIncidents e c incidents).2 := by
  induction incidents generalizing e c with
  | nil => exact h
  | cons i rest ih =>
    have hrest := editions_subset_runIncidents rest (i.run e) (c.next e i)
    have hnext : ∀ edition ∈ (c.next e i).editions, edition.build.Fits := fun _ hmem => hfits _ (hrest hmem)
    refine ih (h.step ?_ (fun _ hmem => hnext _ (editions_subset_next c e i hmem)) hnext) ?_ hfits
    · rintro outage rfl
      exact hdeletes outage List.mem_cons_self
    · exact fun outage hmem => hdeletes outage (List.mem_cons_of_mem _ hmem)

/-- A new engine at a site where nothing is cached is supported by an empty chronicle. -/
theorem supported_start {settings : Settings} {site : Site} (hcache : site.cache.held settings.cacheKey = none)
    (hdelete : site.cacheOutage.delete = false) : Supported settings.cacheKey (start settings site) {} := by
  have hbase : Supported settings.cacheKey ({ settings, site } : Engine) ({} : Chronicle) := by
    refine ⟨rfl, hdelete, fun _ hmem => ?_, fun payload hp => ?_, fun hl => by cases hl⟩
    · cases hmem
    · cases hcache.symm.trans hp
  exact hbase.load fun _ hmem => absurd hmem List.not_mem_nil

/-- **An index is superseded for good once a later one is saved.**  After any run of an engine that starts with nothing
cached, while its cache may fail to answer and to store but not to delete, a loaded index is that of a build that nothing
overtook, and since whose scan the engine was not cleared; and every later build was overtaken too, or it was not saved.  (The
snapshots of the builds must have lengths that fit 64 bits.) -/
theorem loaded_runIncidents {settings : Settings} {site : Site} (hcache : site.cache.held settings.cacheKey = none)
    (hdelete : site.cacheOutage.delete = false) {incidents : List Incident}
    (hdeletes : ∀ outage, .cacheFails outage ∈ incidents → outage.delete = false)
    (hfits : ∀ edition ∈ (runIncidents (start settings site) {} incidents).2.editions, edition.build.Fits)
    (hrun : runIncidents (start settings site) {} incidents = (e, c)) (hloaded : e.loaded = true) :
    ∃ newer edition older, c.editions = newer ++ edition :: older ∧ edition.build.index = e.current ∧
      edition.build.overtaken = false ∧ edition.build.began = c.clears ∧
      ∀ later ∈ newer, later.build.overtaken = true ∨ later.saved = false := by
  have h := (supported_start hcache hdelete).runIncidents hdeletes hfits
  rw [hrun] at h
  exact h.loaded hloaded

/-- The index of one item is built and saved; another item comes into the catalog, the index is built again, but the cache can
store nothing; and the engine is shut down. -/
def unsavedOnce : List Incident :=
  [.event (.build false), .event (.catalogChanges (·.modify (·.upsertItem { id := "2", name := "cd" }))),
    .cacheFails { set := true }, .event (.build true), .event .shutdown]

/-- Then it is asked for the other item. -/
def broughtBack : List Incident := unsavedOnce ++ [.event (.search "cd" 10 none)]

/-- The index of both items. -/
def twoItemsIndex : Index := Catalog.Records.index { items := [{ id := "1", name := "ab" }, { id := "2", name := "cd" }] }

/-- The engine that was shut down. -/
def unsavedShutDown : Engine where
  settings := {}
  site := { oneItemBuilt.site with
    source := .store { items := [{ id := "1", name := "ab" }, { id := "2", name := "cd" }] }
    cacheOutage := { set := true }
    scans := 2 }

/-- Its chronicle: both builds began and ended without a clearing, and only the first was saved. -/
def unsavedChronicle : Chronicle where
  editions := [⟨⟨twoItemsIndex, 0, 0⟩, false⟩, ⟨⟨oneItemIndex, 0, 0⟩, true⟩]

theorem run_unsavedOnce :
    runIncidents (start {} oneItem) {} unsavedOnce = (unsavedShutDown, unsavedChronicle) := rfl

/-- The cached index is loaded. -/
theorem run_broughtBack : runIncidents (start {} oneItem) {} broughtBack =
    ({ unsavedShutDown.lookedUp with served := some oneItemIndex, loaded := true }, unsavedChronicle) := by
  have hasks : Event.asks unsavedShutDown.settings (.search "cd" 10 none) = true := by decide +kernel
  have hrun : Event.run unsavedShutDown (.search "cd" 10 none) =
      { unsavedShutDown.lookedUp with served := some oneItemIndex, loaded := true } :=
    (reply_eq hasks).1.trans (prepare_oneItem rfl rfl)
  have hnext : unsavedChronicle.next unsavedShutDown (.event (.search "cd" 10 none)) = unsavedChronicle := by
    rw [Chronicle.next, hrun]
    rfl
  rw [broughtBack, runIncidents_append, run_unsavedOnce, runIncidents, runIncidents, hnext, Incident.run, hrun]

theorem loaded_runIncidents_broughtBack :
    (∀ outage, .cacheFails outage ∈ broughtBack → outage.delete = false) ∧
      ∃ newer edition older, unsavedChronicle.editions = newer ++ edition :: older ∧ edition.build.index = oneItemIndex ∧
        edition.build.overtaken = false ∧ edition.build.began = 0 ∧
        ∀ later ∈ newer, later.build.overtaken = true ∨ later.saved = false := by
  have hdeletes : ∀ outage, .cacheFails outage ∈ broughtBack → outage.delete = false := by
    intro outage hmem
    obtain rfl : outage = { set := true } := by simpa [broughtBack, unsavedOnce] using hmem
    rfl
  have hfits : ∀ edition ∈ (runIncidents (start {} oneItem) {} broughtBack).2.editions, edition.build.Fits := by
    rw [run_broughtBack]
    simp only [Build.Fits, bytes_encode]
    decide +kernel
  exact ⟨hdeletes, loaded_runIncidents rfl rfl hdeletes hfits run_broughtBack rfl⟩

/-- **An index comes back if no later one was saved:** the engine that was shut down loads the index of one item, though that
of both was built later, and nothing overtook it. -/
theorem loaded_superseded :
    (runIncidents (start {} oneItem) {} broughtBack).1.loaded = true ∧
      (runIncidents (start {} oneItem) {} broughtBack).1.current = oneItemIndex ∧
      (runIncidents (start {} oneItem) {} broughtBack).2.editions.map Edition.build =
        [⟨twoItemsIndex, 0, 0⟩, ⟨oneItemIndex, 0, 0⟩] ∧
      twoItemsIndex ≠ oneItemIndex := by
  have hne : twoItemsIndex ≠ oneItemIndex := by decide +kernel
  rw [run_broughtBack]
  exact ⟨rfl, rfl, rfl, hne⟩

end Engine
end Suggest
