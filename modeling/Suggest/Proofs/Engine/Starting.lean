/-
# An engine starts whatever is in its cache

Anything may stand under the key of a new engine.  It is loaded if it has not expired and is a snapshot that can be read, and
otherwise the engine comes up with nothing (`cachedIndex?_eq_some_iff`).  What is no good then is no good later either
(`cachedIndex?_of_le`), so the first query that needs an index has it built, which puts a snapshot that can be read where the
other bytes were (`start_of_contents`).
-/

import Suggest.Proofs.Engine.Failing

namespace Suggest
namespace Engine

variable {e : Engine}

/-- **There is an index in the cache** if the cache answers, with bytes that have not expired and are a snapshot. -/
theorem cachedIndex?_eq_some_iff {i : Index} :
    e.cachedIndex? = some i ↔ e.site.cacheOutage.get = false ∧
      ∃ payload form, e.site.cache.Yields e.site.now e.settings.cacheKey payload ∧
        Snapshot.decode payload = .ok (form, i) := by
  have hiff : e.cachedIndex? = some i ↔ ∃ payload form,
      (e.site.cache.get e.site.cacheOutage e.site.now e.settings.cacheKey).1 = .ok (some payload) ∧
        Snapshot.decode payload = .ok (form, i) := by
    rw [cachedIndex?]
    constructor
    · intro h
      split at h
      · next payload hpayload =>
        cases hdecode : Snapshot.decode payload with
        | error refusal =>
          rw [hdecode] at h
          cases h
        | ok decoded =>
          rw [hdecode] at h
          cases h
          exact ⟨payload, decoded.1, hpayload, hdecode⟩
      · cases h
    · rintro ⟨payload, form, hpayload, hdecode⟩
      rw [hpayload]
      dsimp only
      rw [hdecode]
      rfl
  simp only [hiff, Cache.get_eq_ok_some_iff]
  constructor
  · rintro ⟨payload, form, ⟨hget, hyields⟩, hdecode⟩
    exact ⟨hget, payload, form, hyields, hdecode⟩
  · rintro ⟨hget, payload, form, hyields, hdecode⟩
    exact ⟨payload, form, ⟨hget, hyields⟩, hdecode⟩

/-- The engine at another time. -/
def atTime (e : Engine) (now : Moment) : Engine := { e with site := { e.site with now } }

/-- If there is no index in the cache, there is none later, also when the cache has been read. -/
theorem cachedIndex?_of_le (h : e.cachedIndex? = none) {later : Moment} (hle : e.site.now ≤ later) :
    (e.lookedUp.atTime later).cachedIndex? = none := by
  refine Option.eq_none_iff_forall_ne_some.2 fun i hi => ?_
  obtain ⟨hget, payload, form, hyields, hdecode⟩ := cachedIndex?_eq_some_iff.1 hi
  have hanswer := Cache.get_eq_ok_some_iff.2 ⟨hget, hyields⟩
  have hyields' : e.site.cache.Yields later e.settings.cacheKey payload :=
    (Cache.get_eq_ok_some_iff.1 ((Cache.get_get e.site.cache e.site.cacheOutage hle _ _ _).symm.trans hanswer)).2
  have hsome : e.cachedIndex? = some i := cachedIndex?_eq_some_iff.2 ⟨hget, payload, form, hyields'.of_le hle, hdecode⟩
  rw [h] at hsome
  cases hsome

theorem start_eq (settings : Settings) (site : Site) :
    start settings site = match cachedIndex? { settings, site } with
      | some i => { lookedUp { settings, site } with served := some i, loaded := true }
      | none => lookedUp { settings, site } := by
  rw [start, load_eq]
  cases cachedIndex? { settings, site } <;> rfl

/-- **An engine without an index has one built to answer the first query,** from one scan of the catalog, and puts it into the
cache, if nothing disturbs the scan and the cache can store it. -/
theorem run_of_cachedIndex?_eq_none {ev : Event} (hasks : ev.asks e.settings = true) (hloaded : e.loaded = false)
    (hcached : e.cachedIndex? = none) (hundisturbed : Undisturbed e.site) {records : Catalog.Records}
    (hscan : e.scan.1 = .ok records) :
    (ev.run e).site.scans = e.site.scans + 1 ∧ ev.reply e = ev.answer e.settings records.index ∧
      (ev.run e).loaded = true ∧ (ev.run e).current = records.index ∧
      (ev.run e).site.cache = (e.lookedUp.site.cache.set e.site.cacheOutage e.site.now e.settings.cacheKey
        (Text.bytes (Snapshot.encode records.index)) e.settings.lifetime).2 := by
  have hprepare : e.prepare = e.lookedUp.rebuild.2 := by
    rw [prepare_eq hloaded, load_eq, hcached]
    rfl
  obtain ⟨hrun, hreply⟩ := reply_eq hasks
  rw [hrun, hreply, hprepare]
  rcases rebuild_cases e.lookedUp with ⟨failure, hfailed, -⟩ | ⟨records', hrecords, ⟨-, heq⟩ | ⟨hdisturbed, -⟩⟩
  · rw [scan_lookedUp, hscan] at hfailed
    cases hfailed
  · rw [scan_lookedUp, hscan] at hrecords
    cases hrecords
    rw [heq, snd_scan (e := e.lookedUp) hundisturbed]
    exact ⟨rfl, rfl, rfl, rfl, rfl⟩
  · exact absurd (clearsInScan_of_undisturbed (s := e.lookedUp.site) hundisturbed) hdisturbed

/-- **An engine starts whatever is in its cache.**  It comes up loaded exactly if the cache answers with bytes that have not
expired and are a snapshot, and then it serves the index of that snapshot.  Otherwise it comes up with nothing.  If its catalog
can be scanned then, and its cache can store what is good for an hour, the first query that needs an index has the catalog scanned
once, is answered from that scan, and leaves a snapshot of it under the key, which can be read for the rest of the hour.  (The
length of the snapshot must fit 64 bits.) -/
theorem start_of_contents (settings : Settings) (site : Site) :
    ((start settings site).loaded = true ↔ site.cacheOutage.get = false ∧
      ∃ payload form i, site.cache.Yields site.now settings.cacheKey payload ∧ Snapshot.decode payload = .ok (form, i)) ∧
    (∀ payload form i, site.cacheOutage.get = false → site.cache.Yields site.now settings.cacheKey payload →
      Snapshot.decode payload = .ok (form, i) → (start settings site).current = i) ∧
    ((start settings site).loaded = false → (start settings site).served = none ∧
      ∀ (later : Moment) (e : Engine), site.now ≤ later → e = (start settings site).atTime later →
        ∀ (records : Catalog.Records) (ev : Event), e.scan.1 = .ok records → Undisturbed site →
          site.cacheOutage.set = false → 3600 ≤ settings.lifetime.seconds →
          (Text.bytes (Snapshot.encode records.index)).length < 1 <<< 64 → ev.asks settings = true →
          (ev.run e).site.scans = site.scans + 1 ∧ ev.reply e = ev.answer settings records.index ∧
          (ev.run e).loaded = true ∧ (ev.run e).current = records.index ∧
          ∃ bytes, Snapshot.decode bytes = .ok (.version 3, records.index) ∧
            (ev.run e).site.cache.held settings.cacheKey = some bytes ∧
            ∀ moment, moment / Lifetime.second < later / Lifetime.second + 3600 →
              (moment / Lifetime.second : Nat) < Envelope.latest →
              (ev.run e).site.cache.Yields moment settings.cacheKey bytes) := by
  have hstart := start_eq settings site
  cases hcached : cachedIndex? { settings, site } with
  | some i =>
    rw [hcached] at hstart
    obtain ⟨hget, payload, form, hyields, hdecode⟩ := cachedIndex?_eq_some_iff.1 hcached
    rw [hstart]
    refine ⟨iff_of_true rfl ⟨hget, payload, form, i, hyields, hdecode⟩, fun payload form j hget hyields hdecode => ?_,
      fun h => by cases h⟩
    have hj : cachedIndex? { settings, site } = some j := cachedIndex?_eq_some_iff.2 ⟨hget, payload, form, hyields, hdecode⟩
    exact Option.some.inj (hcached.symm.trans hj)
  | none =>
    rw [hcached] at hstart
    have hnone : ∀ payload form i, site.cacheOutage.get = false → site.cache.Yields site.now settings.cacheKey payload →
        Snapshot.decode payload ≠ .ok (form, i) := fun payload form i hget hyields hdecode => by
      have hi : cachedIndex? { settings, site } = some i :=
        cachedIndex?_eq_some_iff.2 ⟨hget, payload, form, hyields, hdecode⟩
      cases hcached.symm.trans hi
    rw [hstart]
    refine ⟨iff_of_false Bool.false_ne_true ?_, fun payload form i hget hyields hdecode => ?_, fun _ => ⟨rfl, ?_⟩⟩
    · rintro ⟨hget, payload, form, i, hyields, hdecode⟩
      exact hnone payload form i hget hyields hdecode
    · exact absurd hdecode (hnone payload form i hget hyields)
    rintro later e hle rfl records ev hscan hundisturbed hset hhour hlength hasks
    -- nothing has become readable in the meantime
    obtain ⟨hscans, hreply, hloaded, hcurrent, hcache⟩ := run_of_cachedIndex?_eq_none hasks rfl
      (cachedIndex?_of_le hcached hle) hundisturbed hscan
    refine ⟨hscans, hreply, hloaded, hcurrent, _, Catalog.decode_encode_index hlength, ?_, fun moment hsoon hclock => ?_⟩
    · rw [hcache]
      exact Cache.held_set hset hlength
    · rw [hcache]
      exact Cache.yields_set _ hset _ hlength (Nat.lt_of_lt_of_le hsoon (Nat.add_le_add_left hhour _)) hclock

/-- The site with one item, where something that is no snapshot is cached, in an envelope with a byte behind it. -/
def unreadable : Site :=
  { oneItem with
    cache := .durable (({} : DurableCache).setRaw "trie_search_index" (Envelope.encode ⟨5000, Text.bytes "ab"⟩ ++ [0])) }

theorem start_of_contents_unreadable :
    (start {} unreadable).loaded = false ∧
      (Event.run ((start {} unreadable).atTime 0) (.search "ab" 10 none)).site.scans = 1 ∧
      ∃ bytes, Snapshot.decode bytes = .ok (.version 3, oneItemIndex) ∧
        (Event.run ((start {} unreadable).atTime 0) (.search "ab" 10 none)).site.cache.Yields 0 "trie_search_index" bytes := by
  have hloaded : (start {} unreadable).loaded = false := by decide +kernel
  have hlength : (Text.bytes (Snapshot.encode oneItemIndex)).length < 1 <<< 64 := by
    rw [bytes_encode]
    decide +kernel
  have hscan : ((start {} unreadable).atTime 0).scan.1 = .ok { items := [{ id := "1", name := "ab" }] } := by decide +kernel
  obtain ⟨hscans, -, -, -, bytes, hdecode, -, hyields⟩ := ((start_of_contents {} unreadable).2.2 hloaded).2 0 _ (Nat.le_refl 0)
    rfl _ (.search "ab" 10 none) hscan rfl rfl (by decide) hlength (by decide +kernel)
  exact ⟨hloaded, hscans, bytes, hdecode, hyields 0 (by decide) (by decide)⟩

end Engine
end Suggest
