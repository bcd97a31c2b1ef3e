/-
# The first query after an engine is cleared

A cache may fail in any of its calls at any time, and an engine that is cleared may find that the cached index cannot be
deleted (`Engine.Incident`).  What a call does then follows from what its steps do: loading finds an index or leaves all but
the cache as it was (`load_cases`), and a scan keeps or drops what is served (`scanned_scan`).  So until an engine that was
cleared builds or is asked for an index, it serves nothing, unless the deletion failed and it has loaded what was left in the
cache (`Cleared.quietly`).

Then the first query has the catalog scanned and is answered from that scan, with this one exception
(`scans_first_query_after_clear`).  The exception exists: the index that could not be deleted is loaded by the next query
(`not_scanned_of_failed_delete`).
-/

import Suggest.Proofs.Engine.Coherence

namespace Suggest
namespace Engine

/-! ### What the steps of a call do -/

/-- The engine after it has read the cached bytes. -/
def lookedUp (e : Engine) : Engine :=
  e.withCache (e.site.cache.get e.site.cacheOutage e.site.now e.settings.cacheKey).2

/-- Reading the cache makes no difference to a scan. -/
theorem scan_lookedUp (e : Engine) : e.lookedUp.scan.1 = e.scan.1 := by
  rw [scan_fst, scan_fst]
  rfl

/-- **Loading finds an index in the cache,** or leaves all but the cache as it was. -/
theorem load_cases (e : Engine) :
    (∃ bytes form i, (e.site.cache.get e.site.cacheOutage e.site.now e.settings.cacheKey).1 = .ok (some bytes) ∧
      Snapshot.decode bytes = .ok (form, i) ∧
      e.load = (true, { e.lookedUp with served := some i, loaded := true })) ∨
    e.load = (false, e.lookedUp) := by
  unfold Engine.load
  rw [cached_eq]
  dsimp only
  split
  · next bytes hbytes =>
    cases hdecode : Snapshot.decode bytes with
    | error => exact .inr rfl
    | ok decoded =>
      obtain ⟨form, i⟩ := decoded
      exact .inl ⟨bytes, form, i, hbytes, hdecode, rfl⟩
  · exact .inr rfl

/-- A cached snapshot that can be read is loaded. -/
theorem load_of_decode {e : Engine} {bytes : Bytes} {form : Snapshot.Form} {i : Index}
    (hbytes : (e.site.cache.get e.site.cacheOutage e.site.now e.settings.cacheKey).1 = .ok (some bytes))
    (hdecode : Snapshot.decode bytes = .ok (form, i)) :
    e.load = (true, { e.lookedUp with served := some i, loaded := true }) := by
  unfold Engine.load
  rw [cached_eq]
  dsimp only
  rw [hbytes]
  dsimp only
  rw [hdecode]
  rfl

/-- Nothing stays cached of an engine that is cleared, if it can be deleted. -/
theorem held_clear {e : Engine} (h : e.site.cacheOutage.delete = false) :
    e.clear.2.site.cache.held e.settings.cacheKey = none := Cache.held_delete h e.settings.cacheKey

/-- What a scan does to an engine: it takes things away from the cache at most, and if the engine is cleared in the middle of
it, it takes away all that there is. -/
structure Scanned (e f : Engine) : Prop where
  settings : f.settings = e.settings
  outage : f.site.cacheOutage = e.site.cacheOutage
  scans : f.site.scans = e.site.scans + 1
  generation : f.generation = e.generation + clearsInScan e.site
  held : ∀ key payload, f.site.cache.held key = some payload → e.site.cache.held key = some payload
  kept : clearsInScan e.site = 0 → f.served = e.served ∧ f.loaded = e.loaded
  dropped : clearsInScan e.site ≠ 0 → f.served = none ∧ f.loaded = false ∧
    (e.site.cacheOutage.delete = false → f.site.cache.held e.settings.cacheKey = none)

/-- The engine when a scan has begun, before anything happens in the middle of it. -/
def scanning (e : Engine) : Engine := { e with site := { e.site with scans := e.site.scans + 1, pending := none } }

theorem scanned_scan (e : Engine) : Scanned e e.scan.2 := by
  have hinterruption : Site.interruption { e.site with scans := e.site.scans + 1 } = e.site.interruption := rfl
  have hclears : clearsInScan e.site = clearsOf (e.site.interruption.bind Interruption.clears) := rfl
  rw [Engine.scan]
  dsimp only
  rw [hinterruption]
  cases hpending : e.site.interruption with
  | none =>
    rw [hpending] at hclears
    exact ⟨rfl, rfl, rfl, by rw [hclears]; rfl, fun _ _ h => h, fun _ => ⟨rfl, rfl⟩, fun h => absurd hclears h⟩
  | some i =>
    obtain ⟨clears, upserts⟩ := i
    rw [hpending] at hclears
    have hdone : Scanned e (clears.elim e.scanning e.scanning.clearOne) := by
      cases clears with
      | none =>
        exact ⟨rfl, rfl, rfl, by rw [hclears]; rfl, fun _ _ h => h, fun _ => ⟨rfl, rfl⟩, fun h => absurd hclears h⟩
      | some which =>
        cases which with
        | former other =>
          exact ⟨rfl, rfl, rfl, by rw [hclears]; rfl, fun _ _ h => Cache.held_of_held_delete h, fun _ => ⟨rfl, rfl⟩,
            fun h => absurd hclears h⟩
        | current =>
          exact ⟨rfl, rfl, rfl, by rw [hclears]; rfl, fun _ _ h => Cache.held_of_held_delete h,
            fun h => absurd (hclears.symm.trans h) Nat.one_ne_zero,
            fun _ => ⟨rfl, rfl, fun hdelete => Cache.held_delete hdelete _⟩⟩
    -- what is put into the catalog does not matter here
    cases upserts with
    | none => exact hdone
    | some item => exact ⟨hdone.settings, hdone.outage, hdone.scans, hdone.generation, hdone.held, hdone.kept, hdone.dropped⟩

/-- **What a build comes to:** a scan that fails, one that nothing overtook, or one that was overtaken. -/
theorem rebuild_cases (e : Engine) :
    (∃ failure, e.scan.1 = .error failure ∧ e.rebuild = (.error (.source failure), e.scan.2)) ∨
    ∃ records, e.scan.1 = .ok records ∧
      (clearsInScan e.site = 0 ∧
        e.rebuild = (.ok (.built records.report),
          ({ e.scan.2 with served := some records.index, loaded := true }).save records.index) ∨
      clearsInScan e.site ≠ 0 ∧
        e.rebuild = (.ok (.built records.report), { e.scan.2 with served := some records.index, loaded := false })) := by
  have hgeneration := (scanned_scan e).generation
  unfold Engine.rebuild
  dsimp only
  cases hrecords : e.scan.1 with
  | error failure => exact .inl ⟨failure, rfl, rfl⟩
  | ok records =>
    refine .inr ⟨records, rfl, ?_⟩
    by_cases hclears : clearsInScan e.site = 0
    · have hsame : e.scan.2.generation = e.generation := by rw [hgeneration, hclears, Nat.add_zero]
      exact .inl ⟨hclears, by simp [hsame]⟩
    · have hother : e.scan.2.generation ≠ e.generation := by omega
      exact .inr ⟨hclears, by simp [hother]⟩

theorem prepare_eq {e : Engine} (h : e.loaded = false) :
    e.prepare = if e.load.1 then e.load.2 else e.load.2.rebuild.2 := by
  rw [prepare, build, h]
  dsimp only
  cases e.load.1 <;> rfl

/-- **An engine that has an index loaded if possible** has one already, or loads one, or builds one. -/
theorem prepare_cases (e : Engine) :
    e.loaded = true ∧ e.prepare = e ∨
    e.loaded = false ∧ (∃ bytes form i,
      (e.site.cache.get e.site.cacheOutage e.site.now e.settings.cacheKey).1 = .ok (some bytes) ∧
        Snapshot.decode bytes = .ok (form, i) ∧ e.prepare = { e.lookedUp with served := some i, loaded := true }) ∨
    e.loaded = false ∧ e.prepare = e.lookedUp.rebuild.2 := by
  cases hloaded : e.loaded with
  | true => exact .inl ⟨rfl, by rw [prepare, if_pos hloaded]⟩
  | false =>
    have hprepare := prepare_eq hloaded
    refine .inr ?_
    rcases load_cases e with ⟨bytes, form, i, hbytes, hdecode, heq⟩ | heq
    · exact .inl ⟨rfl, bytes, form, i, hbytes, hdecode, by rw [hprepare, heq]; rfl⟩
    · exact .inr ⟨rfl, by rw [hprepare, heq]; rfl⟩

/-! ### Until something is asked -/

/-- What can happen to an engine whose cache may fail. -/
inductive Incident where
  | event (ev : Event)
  | cacheFails (outage : Cache.Outage)

/-- The engine after an incident. -/
def Incident.run (e : Engine) : Incident → Engine
  | .event ev => ev.run e
  | .cacheFails outage => { e with site := { e.site with cacheOutage := outage } }

/-- Whether an event asks for an answer out of an index. -/
def Event.asks (settings : Settings) : Event → Bool
  | .search query _ _ => settings.minQueryChars ≤ (Text.trim query).length
  | .prefixSearch .. | .keywordSearch .. | .prefixOrSubstringSearch .. | .hybridSearch .. => true
  | _ => false

/-- What an engine answers to an event that asks for something. -/
def Event.reply (e : Engine) : Event → Option (List Entry)
  | .search query limit categories => (e.search? query limit categories).1
  | .prefixSearch query limit => (e.prefixSearch? query limit).1
  | .keywordSearch query limit => (e.keywordSearch? query limit).1
  | .prefixOrSubstringSearch query limit includeSubstring =>
    (e.prefixOrSubstringSearch? query limit includeSubstring).1
  | .hybridSearch query limit preferPrefix => (e.hybridSearch? query limit preferPrefix).1
  | _ => none

/-- The answer that is in an index. -/
def Event.answer (settings : Settings) (i : Index) : Event → Option (List Entry)
  | .search query limit categories =>
    let found := i.hybridSearch? (Text.trim query) (settings.limitFor limit) settings.ranking.preferPrefix settings.ranking
    match categories with
    | some categories => found.map fun entries => entries.filter fun entry => categories.contains entry.category
    | none => found
  | .prefixSearch query limit => i.prefixSearch? query limit settings.ranking
  | .keywordSearch query limit => i.keywordSearch? query limit settings.ranking
  | .prefixOrSubstringSearch query limit includeSubstring =>
    i.prefixOrSubstringSearch? query limit includeSubstring settings.ranking
  | .hybridSearch query limit preferPrefix => i.hybridSearch? query limit preferPrefix settings.ranking
  | _ => none

/-- Whether an incident neither has the engine build nor asks for an answer. -/
def Incident.isQuiet (settings : Settings) : Incident → Bool
  | .event (.build _) | .event .exportSnapshot => false
  | .event ev => !ev.asks settings
  | .cacheFails _ => true

/-- Whether an engine comes of another by incidents that neither have it build nor ask for an answer. -/
inductive Quietly (e : Engine) : Engine → Prop where
  | refl : Quietly e e
  | step {f : Engine} (i : Incident) : Quietly e f → i.isQuiet f.settings = true → Quietly e (i.run f)

theorem settings_rebuild (e : Engine) : e.rebuild.2.settings = e.settings := by
  have hscan := (scanned_scan e).settings
  rcases rebuild_cases e with ⟨_, -, heq⟩ | ⟨_, -, ⟨-, heq⟩ | ⟨-, heq⟩⟩ <;> rw [heq] <;> exact hscan

theorem settings_prepare (e : Engine) : e.prepare.settings = e.settings := by
  rcases prepare_cases e with ⟨-, heq⟩ | ⟨-, _, _, _, -, -, heq⟩ | ⟨-, heq⟩ <;> rw [heq]
  · rfl
  · exact settings_rebuild e.lookedUp

/-- **What asks for an answer gets it from the index that the engine then serves.** -/
theorem reply_eq {e : Engine} {ev : Event} (h : ev.asks e.settings = true) :
    ev.run e = e.prepare ∧ ev.reply e = ev.answer e.settings e.prepare.current := by
  have hsettings := settings_prepare e
  cases ev with
  | search query limit categories =>
    have hlong : ¬(Text.trim query).length < e.settings.minQueryChars := Nat.not_lt.2 (of_decide_eq_true h)
    rw [Event.run, Event.reply, Engine.search?, if_neg hlong]
    exact ⟨rfl, by rw [← hsettings]; rfl⟩
  | prefixSearch | keywordSearch | prefixOrSubstringSearch | hybridSearch =>
    exact ⟨rfl, by rw [← hsettings]; rfl⟩
  | _ => cases h

theorem Event.short_of_not_asks {settings : Settings} {query : String} {limit : Nat} {categories : Option (List String)}
    (h : ¬(Event.search query limit categories).asks settings = true) : (Text.trim query).length < settings.minQueryChars :=
  Nat.not_le.1 fun hle => h (decide_eq_true hle)

/-- A query that is too short leaves the engine as it is. -/
theorem run_search_of_short {e : Engine} {query : String} (h : (Text.trim query).length < e.settings.minQueryChars) (limit : Nat)
    (categories : Option (List String)) : Event.run e (.search query limit categories) = e := by
  simp only [Event.run, Engine.search?, if_pos h]

/-- Whether bytes are what was cached when an engine was cleared, and could not be deleted. -/
def Left (e : Engine) (bytes : Bytes) : Prop :=
  (∃ failure, e.clear.1 = .error failure) ∧ e.site.cache.held e.settings.cacheKey = some bytes

/-- Whether an index is the one that was cached when an engine was cleared, and could not be deleted. -/
def Stale (e : Engine) (i : Index) : Prop := ∃ bytes form, e.Left bytes ∧ Snapshot.decode bytes = .ok (form, i)

/-- What an engine that was cleared has left. -/
structure Cleared (e f : Engine) : Prop where
  keyed : f.settings.cacheKey = e.settings.cacheKey
  held : ∀ bytes, f.site.cache.held e.settings.cacheKey = some bytes → e.Left bytes
  dropped : f.loaded = false → f.served = none
  loaded : f.loaded = true → e.Stale f.current

variable {e f : Engine}

theorem cleared_clear (e : Engine) : Cleared e e.clear.2 := by
  refine ⟨rfl, fun bytes hbytes => ?_, fun _ => rfl, fun h => by cases h⟩
  cases hdelete : e.site.cacheOutage.delete with
  | false => cases (held_clear hdelete).symm.trans hbytes
  | true =>
    exact ⟨⟨.cache .backend, by simp [Engine.clear, Cache.delete, hdelete, Except.mapError]⟩,
      Cache.held_of_held_delete hbytes⟩

theorem Cleared.lookUp (h : Cleared e f) (key : String) :
    Cleared e (f.withCache (f.site.cache.get f.site.cacheOutage f.site.now key).2) :=
  ⟨h.keyed, fun bytes hbytes => h.held bytes (Cache.held_of_held_get hbytes), h.dropped, h.loaded⟩

/-- Bytes that the cache answers with are those that are left. -/
theorem Cleared.left (h : Cleared e f) {bytes : Bytes}
    (hbytes : (f.site.cache.get f.site.cacheOutage f.site.now f.settings.cacheKey).1 = .ok (some bytes)) : e.Left bytes :=
  h.held bytes (by rw [← h.keyed]; exact Cache.held_of_get hbytes)

theorem Cleared.load (h : Cleared e f) : Cleared e f.load.2 := by
  have hlookUp : Cleared e f.lookedUp := h.lookUp f.settings.cacheKey
  rcases load_cases f with ⟨bytes, form, i, hbytes, hdecode, heq⟩ | heq <;> rw [heq]
  · exact ⟨hlookUp.keyed, hlookUp.held, fun hl => (by cases hl), fun _ => ⟨bytes, form, h.left hbytes, hdecode⟩⟩
  · exact hlookUp

/-- **What is quiet leaves an engine with no more than it had left.** -/
theorem Cleared.step (h : Cleared e f) {i : Incident} (hquiet : i.isQuiet f.settings = true) : Cleared e (i.run f) := by
  cases i with
  | cacheFails outage => exact ⟨h.keyed, h.held, h.dropped, h.loaded⟩
  | event ev =>
    cases ev with
    | restart settings =>
      have hbase : Cleared e { settings := { settings with cacheKey := f.settings.cacheKey }, site := { f.site with
          pending := f.site.pending.map (·.outlive f.settings.cacheKey) } } :=
        ⟨h.keyed, h.held, fun _ => rfl, fun hl => by cases hl⟩
      exact hbase.load
    | build | exportSnapshot | prefixSearch | keywordSearch | prefixOrSubstringSearch | hybridSearch => cases hquiet
    | search query limit categories =>
      have hasks : ¬(Event.search query limit categories).asks f.settings = true := by
        simpa [Incident.isQuiet] using hquiet
      rw [Incident.run, run_search_of_short (Event.short_of_not_asks hasks)]
      exact h
    | clear | onChange =>
      exact ⟨h.keyed, fun bytes hbytes => h.held bytes (Cache.held_of_held_delete hbytes), fun _ => rfl,
        fun hl => by cases hl⟩
    | shutdown => exact ⟨h.keyed, h.held, fun _ => rfl, fun hl => by cases hl⟩
    | lookUp key => exact h.lookUp key
    | catalogChanges | catalogFails | interruption | time => exact ⟨h.keyed, h.held, h.dropped, h.loaded⟩

theorem Cleared.quietly (h : Cleared e f) {g : Engine} (hg : Quietly f g) : Cleared e g := by
  induction hg with
  | refl => exact h
  | step i _ hquiet ih => exact ih.step hquiet

/-- The index of what a scan finds, which is empty if the scan fails. -/
def scannedIndex (e : Engine) : Index :=
  match e.scan.1 with
  | .ok records => records.index
  | .error _ => ∅

theorem scans_of_rebuild (e : Engine) : e.rebuild.2.site.scans = e.site.scans + 1 := by
  have hscan := (scanned_scan e).scans
  rcases rebuild_cases e with ⟨_, -, heq⟩ | ⟨_, -, ⟨-, heq⟩ | ⟨-, heq⟩⟩ <;> rw [heq] <;> exact hscan

/-- An engine that serves nothing serves what it scans once it has built. -/
theorem current_rebuild (h : e.served = none) : e.rebuild.2.current = e.scannedIndex := by
  rcases rebuild_cases e with ⟨_, hrecords, heq⟩ | ⟨records, hrecords, ⟨-, heq⟩ | ⟨-, heq⟩⟩ <;>
    rw [heq, scannedIndex, hrecords]
  · have hserved : e.scan.2.served = none := by
      by_cases hclears : clearsInScan e.site = 0
      · rw [((scanned_scan e).kept hclears).1, h]
      · exact ((scanned_scan e).dropped hclears).1
    dsimp only
    rw [current, hserved]
    rfl
  · rfl
  · rfl

/-- **The first query after an engine is cleared has the catalog scanned before it is answered,** whatever the cache does and
whatever else happens in between, and is answered from that scan.  The only exception is that the cached index could not be
deleted, which the call says: then it may be answered from that one without a scan. -/
theorem scans_first_query_after_clear {cleared : Except Failure Unit × Engine}
    (hcleared : cleared = e.clear ∨ ∃ change, cleared = e.onChange change) (hquietly : Quietly cleared.2 f) (ev : Event)
    (hasks : ev.asks f.settings = true) :
    (ev.run f).site.scans = f.site.scans + 1 ∧ ev.reply f = ev.answer f.settings f.scannedIndex ∨
      (∃ failure, cleared.1 = .error failure) ∧ (ev.run f).site.scans = f.site.scans ∧
        ∃ bytes form i, e.site.cache.held e.settings.cacheKey = some bytes ∧ Snapshot.decode bytes = .ok (form, i) ∧
          ev.reply f = ev.answer f.settings i := by
  have h : Cleared e f := by
    rcases hcleared with rfl | ⟨_, rfl⟩ <;> exact (cleared_clear e).quietly hquietly
  have hfailed : (∃ failure, e.clear.1 = .error failure) → ∃ failure, cleared.1 = .error failure := by
    rcases hcleared with rfl | ⟨_, rfl⟩ <;> exact id
  obtain ⟨hrun, hreply⟩ := reply_eq hasks
  rw [hrun, hreply]
  rcases prepare_cases f with ⟨hloaded, heq⟩ | ⟨-, bytes, form, i, hbytes, hdecode, heq⟩ | ⟨hloaded, heq⟩ <;> rw [heq]
  · obtain ⟨bytes, form, ⟨hfailure, hheld⟩, hdecode⟩ := h.loaded hloaded
    exact .inr ⟨hfailed hfailure, rfl, bytes, form, f.current, hheld, hdecode, rfl⟩
  · obtain ⟨hfailure, hheld⟩ := h.left hbytes
    exact .inr ⟨hfailed hfailure, rfl, bytes, form, i, hheld, hdecode, rfl⟩
  · have hsame : scannedIndex f.lookedUp = scannedIndex f := by rw [scannedIndex, scannedIndex, scan_lookedUp]
    have hserved : f.lookedUp.served = none := h.dropped hloaded
    exact .inl ⟨scans_of_rebuild f.lookedUp, by rw [current_rebuild hserved, hsame]⟩

/-- The index of the site with one item. -/
def oneItemIndex : Index := Catalog.Records.index { items := [{ id := "1", name := "ab" }] }

/-- An engine that has built the index of one item and saved it. -/
def oneItemBuilt : Engine where
  settings := {}
  site := { oneItem with
    cache := .memory (MemoryCache.set {} 0 "trie_search_index" (Text.bytes (Snapshot.encode oneItemIndex)) ⟨3600, 0⟩)
    scans := 1 }
  served := some oneItemIndex
  loaded := true

theorem build_oneItem : Event.run (start {} oneItem) (.build false) = oneItemBuilt := rfl

/-- An engine with that in its cache and nothing loaded serves the index of one item when it is asked for something. -/
theorem prepare_oneItem {e : Engine} (hloaded : e.loaded = false)
    (hget : e.site.cache.get e.site.cacheOutage e.site.now e.settings.cacheKey =
      oneItemBuilt.site.cache.get {} 0 "trie_search_index") :
    e.prepare = { e.lookedUp with served := some oneItemIndex, loaded := true } := by
  have hlength : (Text.bytes (Snapshot.encode oneItemIndex)).length < 1 <<< 64 := by
    rw [bytes_encode]
    decide +kernel
  have hbytes : (oneItemBuilt.site.cache.get {} 0 "trie_search_index").1 =
      .ok (some (Text.bytes (Snapshot.encode oneItemIndex))) :=
    congrArg Except.ok (MemoryCache.get_set {} 0 "trie_search_index" _ ⟨3600, 0⟩ (by decide))
  rw [← hget] at hbytes
  rw [prepare_eq hloaded, load_of_decode hbytes (Catalog.decode_encode_index hlength)]
  rfl

/-- It is cleared, the cache can no longer be read, and then something is asked. -/
theorem scans_first_query_after_clear_oneItem :
    Quietly oneItemBuilt.clear.2 (Incident.run oneItemBuilt.clear.2 (.cacheFails { get := true })) ∧
      (Event.run (Incident.run oneItemBuilt.clear.2 (.cacheFails { get := true })) (.prefixSearch "a" 1)).site.scans = 2 := by
  have hquietly : Quietly oneItemBuilt.clear.2 (Incident.run oneItemBuilt.clear.2 (.cacheFails { get := true })) :=
    .step _ .refl rfl
  refine ⟨hquietly, ?_⟩
  rcases scans_first_query_after_clear (.inl rfl) hquietly (.prefixSearch "a" 1) rfl with ⟨hscans, -⟩ | ⟨hfailed, -⟩
  · exact hscans
  · obtain ⟨failure, hfailure⟩ := hfailed
    cases hfailure

/-- The same engine when its cache can delete nothing. -/
def undeletable : Engine := Incident.run oneItemBuilt (.cacheFails { delete := true })

/-- **An index that could not be deleted is served again** by the next query, without a scan. -/
theorem not_scanned_of_failed_delete :
    Event.run (start {} oneItem) (.build false) = oneItemBuilt ∧
      undeletable.clear.1 = .error (.cache .backend) ∧
      Event.asks undeletable.clear.2.settings (.search "ab" 10 none) = true ∧
      (Event.run undeletable.clear.2 (.search "ab" 10 none)).site.scans = undeletable.clear.2.site.scans ∧
      Event.reply undeletable.clear.2 (.search "ab" 10 none) =
        Event.answer {} undeletable.current (.search "ab" 10 none) := by
  have hprepare := prepare_oneItem (e := undeletable.clear.2) rfl rfl
  have hasks : Event.asks undeletable.clear.2.settings (.search "ab" 10 none) = true := by decide +kernel
  obtain ⟨hrun, hreply⟩ := reply_eq hasks
  rw [hrun, hreply, hprepare]
  exact ⟨build_oneItem, rfl, hasks, rfl, rfl⟩

end Engine
end Suggest
