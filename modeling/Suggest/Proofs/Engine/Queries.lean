/-
# Queries do not disturb each other

A query that comes to an engine without an index changes it: an index is loaded from the cache, or built and put there, or an
expired one is taken away and the scan fails.  But either an index is loaded now, and it is the one that the query was answered
from, or nothing that can be told from then on has changed (`loaded_or_unchanged`).  So what a query leaves behind would serve the
next one as the engine did before (`Steady.query`).

Hence each of any number of queries is answered as if it were the only one, whichever were asked before it and in whatever order
(`replies_eq_map`).  Time may go by between them (`Steady.time`), as long as the index in the cache stays what it is until one is
loaded.
-/

import Suggest.Proofs.Engine.Starting

namespace Suggest
namespace Engine

variable {e f : Engine}

/-- Whether an event is a query, also one that is too short to be answered from an index. -/
def Event.isQuery : Event → Bool
  | .search .. | .prefixSearch .. | .keywordSearch .. | .prefixOrSubstringSearch .. | .hybridSearch .. => true
  | _ => false

/-- What an engine replies to events, one after the other. -/
def replies (e : Engine) : List Event → List (Option (List Entry))
  | [] => []
  | ev :: rest => ev.reply e :: replies (ev.run e) rest

/-- The times that it is in the course of events. -/
def moments (events : List Event) : List Moment :=
  events.filterMap fun
    | .time now => some now
    | _ => none

/-- Whether an engine would serve what another one would. -/
structure Serves (e f : Engine) : Prop where
  settings : f.settings = e.settings
  current : f.prepare.current = e.prepare.current

theorem Serves.reply (h : Serves e f) (ev : Event) : ev.reply f = ev.reply e := reply_congr h.settings h.current ev

/-- Whether nothing disturbs an engine from its time on, at times that come after it: no engine is cleared in the middle of a scan,
and the index in the cache stays what it is, unless one is loaded. -/
structure Steady (e : Engine) (times : List Moment) : Prop where
  undisturbed : Undisturbed e.site
  ordered : (e.site.now :: times).Pairwise (· ≤ ·)
  cached : e.loaded = false → ∀ now ∈ times, (e.atTime now).cachedIndex? = e.cachedIndex?

/-- A query changes an engine as having an index loaded does, or not at all. -/
theorem Event.run_of_isQuery {ev : Event} (h : ev.isQuery = true) : ev.run e = e.prepare ∨ ev.run e = e := by
  by_cases hasks : ev.asks e.settings = true
  · exact .inl (reply_eq hasks).1
  · cases ev with
    | search query limit categories => exact .inr (run_search_of_short (Event.short_of_not_asks hasks) limit categories)
    | prefixSearch | keywordSearch | prefixOrSubstringSearch | hybridSearch => exact absurd rfl hasks
    | _ => cases h

/-- It is no other time when an index has been loaded or built, the same calls are out of order, and nothing is about to happen
that was not. -/
theorem site_prepare (h : Undisturbed e.site) :
    e.prepare.site.now = e.site.now ∧ e.prepare.site.catalogOutage = e.site.catalogOutage ∧
      e.prepare.site.cacheOutage = e.site.cacheOutage ∧ Undisturbed e.prepare.site := by
  have hvisited : Undisturbed (visited e.lookedUp.site) :=
    congrArg (Option.bind · Interruption.clears) (interruption_visited e.lookedUp.site)
  rcases prepare_cases e with ⟨-, heq⟩ | ⟨-, _, _, _, -, -, heq⟩ | ⟨-, heq⟩ <;> rw [heq]
  · exact ⟨rfl, rfl, rfl, h⟩
  · exact ⟨rfl, rfl, rfl, h⟩
  · rcases rebuild_cases e.lookedUp with ⟨_, -, heq⟩ | ⟨_, -, ⟨-, heq⟩ | ⟨-, heq⟩⟩ <;>
      rw [heq] <;> rw [snd_scan (e := e.lookedUp) h] <;> exact ⟨rfl, rfl, rfl, hvisited⟩

/-- **An engine that has an index loaded if possible has one loaded, or cannot be told from what it was.** -/
theorem loaded_or_unchanged (h : Undisturbed e.site) : e.prepare.loaded = true ∨ Unchanged e e.prepare := by
  rcases prepare_cases e with ⟨hloaded, heq⟩ | ⟨-, _, _, _, -, -, heq⟩ | ⟨-, heq⟩ <;> rw [heq]
  · exact .inl hloaded
  · exact .inl rfl
  · rcases rebuild_cases e.lookedUp with ⟨_, -, heq⟩ | ⟨_, -, ⟨-, heq⟩ | ⟨hdisturbed, -⟩⟩
    · rw [heq]
      exact .inr ((unchanged_lookedUp h).trans (unchanged_scan (e := e.lookedUp) h))
    · rw [heq]
      exact .inl rfl
    · exact absurd (clearsInScan_of_undisturbed (s := e.lookedUp.site) h) hdisturbed

theorem atTime_prepare (h : Undisturbed e.site) (now : Moment) :
    e.prepare.atTime now = e.prepare.under now e.site.catalogOutage e.site.cacheOutage := by
  obtain ⟨-, hcatalog, hcache, -⟩ := site_prepare h
  rw [← hcatalog, ← hcache]
  rfl

theorem atTime_now_prepare (h : Undisturbed e.site) : e.prepare.atTime e.site.now = e.prepare := by
  rw [← (site_prepare h).1]
  rfl

theorem serves_prepare (h : Undisturbed e.site) : Serves e e.prepare where
  settings := settings_prepare e
  current := by
    rcases loaded_or_unchanged h with hloaded | hunchanged
    · rw [prepare.eq_def e.prepare, if_pos hloaded]
    · have hcurrent := hunchanged.current_prepare h (Nat.le_refl e.site.now) e.site.catalogOutage e.site.cacheOutage
      rwa [← atTime_prepare h, atTime_now_prepare h] at hcurrent

theorem loaded_of_prepare (h : e.prepare.loaded = false) : e.loaded = false := by
  rw [prepare] at h
  split at h
  · exact h
  · next hloaded => exact Bool.eq_false_iff.2 hloaded

/-- An engine without an index that has none after a query finds in the cache what it would have found. -/
theorem cachedIndex?_prepare (h : Undisturbed e.site) (hloaded : e.prepare.loaded = false) {now : Moment}
    (hle : e.site.now ≤ now) : (e.prepare.atTime now).cachedIndex? = (e.atTime now).cachedIndex? := by
  rcases loaded_or_unchanged h with hloaded' | hunchanged
  · cases hloaded.symm.trans hloaded'
  · rw [atTime_prepare h]
    exact hunchanged.cachedIndex? hle e.site.catalogOutage e.site.cacheOutage

/-- **A query leaves an engine that would serve the same,** and that nothing disturbs. -/
theorem Steady.query {times : List Moment} (h : e.Steady times) {ev : Event} (hquery : ev.isQuery = true) :
    (ev.run e).Steady times ∧ Serves e (ev.run e) := by
  rcases Event.run_of_isQuery (e := e) hquery with hrun | hrun <;> rw [hrun]
  · obtain ⟨hnow, -, -, hundisturbed⟩ := site_prepare h.undisturbed
    refine ⟨⟨hundisturbed, hnow ▸ h.ordered, fun hloaded now htime => ?_⟩, serves_prepare h.undisturbed⟩
    -- the query may have read the cache, so both what it finds now and what it finds later are traced back
    have hbefore := cachedIndex?_prepare h.undisturbed hloaded (Nat.le_refl e.site.now)
    rw [atTime_now_prepare h.undisturbed] at hbefore
    rw [cachedIndex?_prepare h.undisturbed hloaded (List.rel_of_pairwise_cons h.ordered htime), hbefore]
    exact h.cached (loaded_of_prepare hloaded) now htime
  · exact ⟨h, rfl, rfl⟩

/-- **At a later time the engine would serve the same,** and nothing disturbs it from then on. -/
theorem Steady.time {now : Moment} {times : List Moment} (h : e.Steady (now :: times)) :
    (e.atTime now).Steady times ∧ Serves e (e.atTime now) := by
  refine ⟨⟨h.undisturbed, List.Pairwise.of_cons h.ordered, fun hloaded later htime => ?_⟩, rfl, ?_⟩
  · exact (h.cached hloaded later (List.mem_cons_of_mem _ htime)).trans (h.cached hloaded now List.mem_cons_self).symm
  · rw [current_prepare (e := e.atTime now) h.undisturbed, current_prepare h.undisturbed]
    cases hloaded : e.loaded with
    | true => exact if_pos hloaded
    | false =>
      -- the catalog does not depend on the time
      rw [h.cached hloaded now List.mem_cons_self, scan_fst, scan_fst, if_neg Bool.false_ne_true]
      exact if_neg (Bool.eq_false_iff.1 hloaded)

/-- Queries that are asked while time goes by are answered as if each were the only one. -/
theorem Steady.replies_eq {asked : List Event} (h : e.Steady (moments asked))
    (hqueries : ∀ ev ∈ asked, ev.isQuery = true ∨ ∃ now, ev = .time now) :
    replies e asked = asked.map (Event.reply e) := by
  induction asked generalizing e with
  | nil => rfl
  | cons ev rest ih =>
    have hstep : (ev.run e).Steady (moments rest) ∧ Serves e (ev.run e) := by
      rcases hqueries ev List.mem_cons_self with hquery | ⟨now, rfl⟩
      · have hmoments : moments (ev :: rest) = moments rest := by
          cases ev <;> first | rfl | cases hquery
        exact (hmoments ▸ h).query hquery
      · exact Steady.time h
    rw [replies, ih hstep.1 fun ev hev => hqueries ev (List.mem_cons_of_mem _ hev), List.map_cons]
    exact congrArg (_ :: ·) (List.map_congr_left fun ev _ => hstep.2.reply ev)

/-- **Queries do not disturb each other,** whichever calls to the catalog and to the cache are out of order, if no engine is
cleared in the middle of a scan.  Each of them gets the reply that it would get if it were the only one, so neither the order
matters nor which others there are.  Time may go by between them as long as the index in the cache stays what it is, or one is
loaded. -/
theorem replies_eq_map (hundisturbed : Undisturbed e.site) :
    (∀ asked : List Event, (∀ ev ∈ asked, ev.isQuery = true) → replies e asked = asked.map (Event.reply e)) ∧
    ∀ asked : List Event, (∀ ev ∈ asked, ev.isQuery = true ∨ ∃ now, ev = .time now) → e.Steady (moments asked) →
      replies e asked = asked.map (Event.reply e) := by
  refine ⟨fun asked hqueries => ?_, fun asked hqueries hsteady => hsteady.replies_eq hqueries⟩
  have hmoments : moments asked = [] := by
    refine List.filterMap_eq_nil_iff.2 fun ev hev => ?_
    have hquery := hqueries ev hev
    cases ev <;> first | rfl | cases hquery
  have hsteady : e.Steady (moments asked) := by
    rw [hmoments]
    exact ⟨hundisturbed, List.pairwise_singleton _ _, fun _ => List.forall_mem_nil _⟩
  exact hsteady.replies_eq fun ev hev => .inl (hqueries ev hev)

/-- An engine that serves the index of one item, which is not loaded any more, and whose cached index has expired. -/
def expired : Engine :=
  { oneItemBuilt with loaded := false, site := { oneItemBuilt.site with now := 2 * 3600 * Lifetime.second } }

/-- A query that is too short, one that has the index built, one an hour later, and one that is answered from the same index. -/
def askedExpired : List Event :=
  [.search "a" 10 none, .prefixSearch "a" 5, .time (3 * 3600 * Lifetime.second), .keywordSearch "ab" 3, .search "ab" 10 none]

theorem replies_eq_map_expired :
    Undisturbed expired.site ∧ replies expired askedExpired = askedExpired.map (Event.reply expired) ∧
      replies expired [.search "ab" 10 none, .prefixSearch "a" 5] =
        [Event.reply expired (.search "ab" 10 none), Event.reply expired (.prefixSearch "a" 5)] := by
  have hundisturbed : Undisturbed expired.site := rfl
  have hsteady : expired.Steady (moments askedExpired) := by
    refine ⟨hundisturbed, by decide, fun _ now hnow => ?_⟩
    rw [show moments askedExpired = [3 * 3600 * Lifetime.second] from rfl, List.mem_singleton] at hnow
    rw [hnow]
    rfl
  obtain ⟨hqueries, htimed⟩ := replies_eq_map hundisturbed
  exact ⟨hundisturbed, htimed askedExpired (by simp [askedExpired, Event.isQuery]) hsteady,
    hqueries _ (by simp [Event.isQuery])⟩

end Engine
end Suggest
