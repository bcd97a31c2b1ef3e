/-
# A build that fails changes nothing

A build fails if the scan of the catalog does.  By then it may have read the cache, and what was about to happen in the middle
of the scan has happened.  If that was no clearing, the engine serves what it served, with the same right, and whatever the
cache is asked for from then on it answers as it would have (`Cache.get_get`).  So the engine before and the engine after cannot
be told apart (`Unchanged`): not by any later query either, at whatever time, and whichever calls are out of order then
(`Unchanged.reply`).

The main result says so of every build (`build_of_error`), and what a query is answered with that has to build first: the index
that was served before, loaded or not.
-/

import Suggest.Proofs.Cache.Live
import Suggest.Proofs.Engine.Clearing

namespace Suggest
namespace Engine

variable {e f g : Engine}

/-- The index in the cache, if there is one that can be read. -/
def cachedIndex? (e : Engine) : Option Index :=
  match (e.site.cache.get e.site.cacheOutage e.site.now e.settings.cacheKey).1 with
  | .ok (some bytes) => (Snapshot.decode bytes).toOption.map Prod.snd
  | _ => none

/-- Loading finds the index in the cache, and leaves all but the cache as it was if there is none. -/
theorem load_eq (e : Engine) :
    e.load = match e.cachedIndex? with
      | some i => (true, { e.lookedUp with served := some i, loaded := true })
      | none => (false, e.lookedUp) := by
  unfold Engine.load
  rw [cached_eq, cachedIndex?]
  dsimp only
  cases hfound : (e.site.cache.get e.site.cacheOutage e.site.now e.settings.cacheKey).1 with
  | error failure => rfl
  | ok found =>
    cases found with
    | none => rfl
    | some bytes =>
      dsimp only
      cases Snapshot.decode bytes <;> rfl

/-! ### Scans that nothing disturbs -/

/-- Whether no engine is cleared in the middle of a scan that starts now. -/
def Undisturbed (s : Site) : Prop := s.interruption.bind Interruption.clears = none

theorem clearsInScan_of_undisturbed {s : Site} (h : Undisturbed s) : clearsInScan s = 0 := by
  rw [clearsInScan, show s.interruption.bind Interruption.clears = none from h]
  rfl

/-- A site after a scan that was not disturbed. -/
def visited (s : Site) : Site where
  source := (s.interruption.bind Interruption.upserts).elim s.source fun item => s.source.modify (·.upsertItem item)
  cache := s.cache
  now := s.now
  catalogOutage := s.catalogOutage
  cacheOutage := s.cacheOutage
  pending := if s.interruption.isSome then none else s.pending
  scans := s.scans + 1

theorem snd_scan (h : Undisturbed e.site) : e.scan.2 = { e with site := visited e.site } := by
  have hinterruption : Site.interruption { e.site with scans := e.site.scans + 1 } = e.site.interruption := rfl
  rw [Undisturbed] at h
  rw [Engine.scan, visited]
  dsimp only
  rw [hinterruption]
  cases hpending : e.site.interruption with
  | none => rfl
  | some i =>
    obtain ⟨clears, upserts⟩ := i
    rw [hpending] at h
    cases h
    cases upserts <;> rfl

/-- Nothing is about to happen after a scan. -/
theorem interruption_visited (s : Site) : (visited s).interruption = none := by
  obtain ⟨source, cache, now, catalogOutage, cacheOutage, pending, scans⟩ := s
  cases source <;> rcases pending with _ | ⟨clears, _ | item⟩ <;> rfl

/-! ### Engines that cannot be told apart -/

/-- The engine at a time and with calls out of order. -/
def under (e : Engine) (now : Moment) (catalog : Catalog.Outage) (cache : Cache.Outage) : Engine :=
  { e with site := { e.site with now, catalogOutage := catalog, cacheOutage := cache } }

/-- Whether a call left an engine as it was, as far as can be told from then on. -/
structure Unchanged (e f : Engine) : Prop where
  settings : f.settings = e.settings
  served : f.served = e.served
  loaded : f.loaded = e.loaded
  generation : f.generation = e.generation
  now : f.site.now = e.site.now
  answers : ∀ outage later key, e.site.now ≤ later →
    (f.site.cache.get outage later key).1 = (e.site.cache.get outage later key).1
  scanned : ∀ now catalog cache, (f.under now catalog cache).scan.1 = (e.under now catalog cache).scan.1
  undisturbed : Undisturbed f.site

theorem Unchanged.trans (h : Unchanged e f) (h' : Unchanged f g) : Unchanged e g where
  settings := h'.settings.trans h.settings
  served := h'.served.trans h.served
  loaded := h'.loaded.trans h.loaded
  generation := h'.generation.trans h.generation
  now := h'.now.trans h.now
  answers outage later key hle := (h'.answers outage later key (h.now ▸ hle)).trans (h.answers outage later key hle)
  scanned now catalog cache := (h'.scanned now catalog cache).trans (h.scanned now catalog cache)
  undisturbed := h'.undisturbed

theorem unchanged_lookedUp (h : Undisturbed e.site) : Unchanged e e.lookedUp where
  settings := rfl
  served := rfl
  loaded := rfl
  generation := rfl
  now := rfl
  answers outage _ key hle := Cache.get_get e.site.cache e.site.cacheOutage hle e.settings.cacheKey outage key
  scanned _ _ _ := by rw [scan_fst, scan_fst]; rfl
  undisturbed := h

theorem unchanged_scan (h : Undisturbed e.site) : Unchanged e e.scan.2 := by
  rw [snd_scan h]
  refine ⟨rfl, rfl, rfl, rfl, rfl, fun _ _ _ _ => rfl, fun now catalog cache => ?_, ?_⟩
  · -- what was put into the catalog is there for every later scan
    have hafter : ((Engine.mk e.settings (visited e.site) e.served e.loaded e.generation).under now catalog
        cache).site.interruption = none := interruption_visited e.site
    rw [scan_fst, scan_fst, hafter]
    rfl
  · rw [Undisturbed, interruption_visited]
    rfl

/-- **The index that an engine serves when it is asked for something.** -/
theorem current_prepare (h : Undisturbed e.site) :
    e.prepare.current = if e.loaded then e.current else match e.cachedIndex? with
      | some i => i
      | none => match e.scan.1 with
        | .ok records => records.index
        | .error _ => e.current := by
  cases hloaded : e.loaded with
  | true => rw [prepare, if_pos hloaded, if_pos rfl]
  | false =>
    rw [prepare_eq hloaded, load_eq, if_neg Bool.false_ne_true]
    cases e.cachedIndex? with
    | some i => rfl
    | none =>
      dsimp only
      rw [if_neg Bool.false_ne_true]
      rcases rebuild_cases e.lookedUp with ⟨_, hrecords, heq⟩ | ⟨records, hrecords, ⟨-, heq⟩ | ⟨-, heq⟩⟩ <;>
        rw [heq] <;> rw [scan_lookedUp] at hrecords <;> rw [hrecords]
      · rw [snd_scan (e := e.lookedUp) h]
        rfl
      · rfl
      · rfl

theorem reply_search_of_short {query : String} (h : (Text.trim query).length < e.settings.minQueryChars) {limit : Nat}
    {categories : Option (List String)} : Event.reply e (.search query limit categories) = some [] := by
  simp only [Event.reply, Engine.search?, if_pos h]

/-- **Engines that would serve the same index answer alike.** -/
theorem reply_congr (hsettings : f.settings = e.settings) (hcurrent : f.prepare.current = e.prepare.current) (ev : Event) :
    ev.reply f = ev.reply e := by
  by_cases hasks : ev.asks e.settings = true
  · rw [(reply_eq hasks).2, (reply_eq (hsettings ▸ hasks)).2, hsettings, hcurrent]
  · cases ev with
    | search query limit categories =>
      have hshort := Event.short_of_not_asks hasks
      rw [reply_search_of_short hshort, reply_search_of_short (hsettings ▸ hshort)]
    | prefixSearch | keywordSearch | prefixOrSubstringSearch | hybridSearch => exact absurd rfl hasks
    | _ => rfl

theorem Unchanged.cachedIndex? (h : Unchanged e f) {now : Moment} (hle : e.site.now ≤ now) (catalog : Catalog.Outage)
    (cache : Cache.Outage) :
    (f.under now catalog cache).cachedIndex? = (e.under now catalog cache).cachedIndex? := by
  have hsettings : (f.under now catalog cache).settings = (e.under now catalog cache).settings := h.settings
  rw [Engine.cachedIndex?, Engine.cachedIndex?, hsettings]
  exact congrArg (fun found : Except Cache.Failure (Option Bytes) => match found with
    | .ok (some bytes) => (Snapshot.decode bytes).toOption.map Prod.snd
    | _ => none) (h.answers cache now e.settings.cacheKey hle)

theorem Unchanged.current_prepare (h : Unchanged e f) (hundisturbed : Undisturbed e.site) {now : Moment}
    (hle : e.site.now ≤ now) (catalog : Catalog.Outage) (cache : Cache.Outage) :
    (f.under now catalog cache).prepare.current = (e.under now catalog cache).prepare.current := by
  have hserved : (f.under now catalog cache).current = (e.under now catalog cache).current :=
    congrArg (Option.getD · ∅) h.served
  rw [Engine.current_prepare (e := f.under now catalog cache) h.undisturbed,
    Engine.current_prepare (e := e.under now catalog cache) hundisturbed, h.cachedIndex? hle, hserved, h.scanned]
  exact congrArg (fun loaded : Bool => if loaded = true then _ else _) h.loaded

/-- **Engines that cannot be told apart answer alike,** at every later time and whichever calls are out of order. -/
theorem Unchanged.reply (h : Unchanged e f) (hundisturbed : Undisturbed e.site) {now : Moment} (hle : e.site.now ≤ now)
    (catalog : Catalog.Outage) (cache : Cache.Outage) (ev : Event) :
    ev.reply (f.under now catalog cache) = ev.reply (e.under now catalog cache) :=
  reply_congr (e := e.under now catalog cache) (f := f.under now catalog cache) h.settings
    (h.current_prepare hundisturbed hle catalog cache) ev

/-! ### Builds that fail -/

/-- **How a build fails:** the engine has not found an index in the cache, or was told not to look, and the scan fails. -/
theorem build_error_cases {force : Bool} {failure : Failure} (h : (e.build force).1 = .error failure) :
    force = true ∧ (e.build force).2 = e.scan.2 ∨
      force = false ∧ (e.build force).2 = e.lookedUp.scan.2 ∧ e.loaded = false ∧ e.cachedIndex? = none ∧
        ∃ failure, e.scan.1 = .error failure := by
  have hrebuild : ∀ {e : Engine}, e.rebuild.1 = .error failure →
      e.rebuild.2 = e.scan.2 ∧ ∃ failure, e.scan.1 = .error failure := by
    intro e h
    rcases rebuild_cases e with ⟨failure', hrecords, heq⟩ | ⟨_, -, ⟨-, heq⟩ | ⟨-, heq⟩⟩ <;> rw [heq] at h ⊢
    · exact ⟨rfl, failure', hrecords⟩
    · cases h
    · cases h
  cases force with
  | true => exact .inl ⟨rfl, (hrebuild h).1⟩
  | false =>
    rw [build, if_neg Bool.false_ne_true] at h ⊢
    split at h
    · cases h
    · next hloaded =>
      rw [if_neg hloaded]
      rw [load_eq] at h ⊢
      cases hcached : e.cachedIndex? with
      | some i =>
        rw [hcached] at h
        cases h
      | none =>
        rw [hcached] at h
        obtain ⟨hsame, hscan⟩ := hrebuild (e := e.lookedUp) h
        rw [scan_lookedUp] at hscan
        exact .inr ⟨rfl, hsame, by simpa using hloaded, rfl, hscan⟩

/-- **A build that fails changes nothing,** if no engine is cleared in the middle of its scan.  What is served, whether it is
loaded, the generation, and what the cache answers from then on are as they were, so every query is answered as it was, at every
later time and whichever calls are out of order then.  And a query that comes to such a build is answered from the index that was
served before, which is empty if there was none. -/
theorem build_of_error {force : Bool} {failure : Failure} (hfailed : (e.build force).1 = .error failure)
    (hundisturbed : Undisturbed e.site) :
    (e.build force).2.served = e.served ∧ (e.build force).2.loaded = e.loaded ∧
    (e.build force).2.generation = e.generation ∧
    (∀ outage later key, e.site.now ≤ later →
      ((e.build force).2.site.cache.get outage later key).1 = (e.site.cache.get outage later key).1) ∧
    (∀ now catalog cache ev, e.site.now ≤ now →
      Event.reply ((e.build force).2.under now catalog cache) ev = Event.reply (e.under now catalog cache) ev) ∧
    (force = false → ∀ ev : Event, ev.asks e.settings = true → ev.reply e = ev.answer e.settings e.current) := by
  have hunchanged : Unchanged e (e.build force).2 := by
    rcases build_error_cases hfailed with ⟨-, heq⟩ | ⟨-, heq, -⟩ <;> rw [heq]
    · exact unchanged_scan hundisturbed
    · exact (unchanged_lookedUp hundisturbed).trans (unchanged_scan (e := e.lookedUp) hundisturbed)
  refine ⟨hunchanged.served, hunchanged.loaded, hunchanged.generation, hunchanged.answers,
    fun now catalog cache ev hle => hunchanged.reply hundisturbed hle catalog cache ev, fun hforce ev hasks => ?_⟩
  rcases build_error_cases hfailed with ⟨htrue, -⟩ | ⟨-, -, hloaded, hcached, failure, hscan⟩
  · cases htrue.symm.trans hforce
  · rw [(reply_eq hasks).2, current_prepare hundisturbed, hloaded, hcached, hscan]
    rfl

/-- An engine that serves the index of one item, which is not loaded any more.  Its cached index has expired, and its catalog is
out of order while another item is about to be put into it. -/
def outOfOrder : Engine :=
  { oneItemBuilt with
    loaded := false
    site := { oneItemBuilt.site with
      now := 2 * 3600 * Lifetime.second
      catalogOutage := { scan := true }
      pending := some { upserts := some { id := "2", name := "cd" } } } }

/-- The expired index is taken away, and the item is put there, but a query is answered from what was served. -/
theorem build_of_error_outOfOrder :
    ((outOfOrder.build false).1 = .error (.source (.scan "scan offline")) ∧ Undisturbed outOfOrder.site) ∧
      (outOfOrder.build false).2.served = some oneItemIndex ∧
      Event.reply outOfOrder (.search "ab" 10 none) = Event.answer {} oneItemIndex (.search "ab" 10 none) := by
  have hfailed : (outOfOrder.build false).1 = .error (.source (.scan "scan offline")) := rfl
  have hundisturbed : Undisturbed outOfOrder.site := rfl
  obtain ⟨hserved, -, -, -, -, hreply⟩ := build_of_error hfailed hundisturbed
  exact ⟨⟨hfailed, hundisturbed⟩, hserved, hreply rfl (.search "ab" 10 none) (by decide +kernel)⟩

end Engine
end Suggest
