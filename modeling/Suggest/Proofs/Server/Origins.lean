/-
# Which origins an answer names

A setting is a list of origins with commas between them.  A server starts with it exactly if the wildcard is none of its items
(`ofSetting?_isSome_iff`): it could be the value of a header, so it is not dropped as an item is that could not, and it is no
origin either.

The origins are settled when the server starts.  Whatever is asked of it, and whatever happens around it, they stay
(`cors_run`), so every answer of a run names what they allow for the origin of its request (`allowOrigin_of_mem_exchanges`).
-/

import Suggest.Proofs.Server.Refused

namespace Suggest
namespace Server

namespace Cors

theorem mem_origins {setting origin : String} :
    origin ∈ origins setting ↔ origin ∈ Text.items setting ∧ isHeaderValue origin = true := List.mem_filter

theorem isHeaderValue_wildcard : isHeaderValue "*" = true := by decide

/-- **A setting has a meaning exactly if it does not list the wildcard.** -/
theorem ofSetting?_isSome_iff {setting : String} : (ofSetting? (some setting)).isSome ↔ "*" ∉ Text.items setting := by
  have hmem : "*" ∈ origins setting ↔ "*" ∈ Text.items setting := by simp [mem_origins, isHeaderValue_wildcard]
  rw [ofSetting?, ← hmem]
  split
  · next hempty => simp [List.isEmpty_iff.1 hempty]
  · split
    · next hwildcard => simpa using hwildcard
    · next hwildcard => simpa using hwildcard

theorem ofSetting?_eq_some_cases {setting : String} {cors : Cors} (h : ofSetting? (some setting) = some cors) :
    cors = .anyone ∧ origins setting = [] ∨ cors = .listed (origins setting) ∧ origins setting ≠ [] := by
  rw [ofSetting?] at h
  split at h
  · next hempty => exact .inl ⟨(Option.some.inj h).symm, List.isEmpty_iff.1 hempty⟩
  · next hne =>
    split at h
    · cases h
    · exact .inr ⟨(Option.some.inj h).symm, fun hempty => hne (List.isEmpty_iff.2 hempty)⟩

/-- What an answer names for an origin that could be the value of a header. -/
theorem allowed_of_ofSetting? {setting o : String} {cors : Cors} (h : ofSetting? (some setting) = some cors)
    (ho : isHeaderValue o = true) (hvalid : ∃ e ∈ Text.items setting, isHeaderValue e = true) :
    cors.allowed (some o) = if o ∈ Text.items setting then some o else none := by
  obtain ⟨e, he, hvalue⟩ := hvalid
  rcases ofSetting?_eq_some_cases h with ⟨-, hempty⟩ | ⟨rfl, -⟩
  · have : e ∈ origins setting := mem_origins.2 ⟨he, hvalue⟩
    rw [hempty] at this
    cases this
  · have hmem : o ∈ origins setting ↔ o ∈ Text.items setting := by simp [mem_origins, ho]
    simp only [allowed, Option.filter_some, List.contains_iff_mem, hmem]

end Cors

variable {s : Server} {steps : List Step}

theorem cors_serve (s : Server) (r : Request) (route : Route) : (s.serve r route).2.cors = s.cors := by
  rw [serve]
  split <;> rfl

theorem cors_handle (s : Server) (r : Request) : (s.handle r).2.cors = s.cors := by
  rw [handle]
  dsimp only
  split
  · rfl
  · split
    · rfl
    · split
      · exact cors_serve s r _
      · rfl

theorem allowOrigin_handle (s : Server) (r : Request) :
    (s.handle r).1.allowOrigin = s.cors.allowed (r.header? "origin") := rfl

/-- **The origins stay what they are.** -/
theorem cors_run (s : Server) (step : Step) : (step.run s).2.cors = s.cors := by
  cases step with
  | request r => exact cors_handle s r
  | filesChange | restart | time => rfl

/-- **Every answer of a run names what the origins of the server allow.** -/
theorem allowOrigin_of_mem_exchanges {x : Request × Response} (h : x ∈ s.exchanges steps) :
    x.2.allowOrigin = s.cors.allowed (x.1.header? "origin") := by
  induction steps generalizing s with
  | nil => cases h
  | cons step rest ih =>
    rw [exchanges, List.mem_append] at h
    rcases h with h | h
    · cases step with
      | request r =>
        obtain rfl : x = (r, (s.handle r).1) := by simpa [Step.run, eq_comm] using h
        exact allowOrigin_handle s r
      | filesChange | restart | time => cases h
    · rw [ih h, cors_run]

theorem start?_eq_some_iff {settings : Settings} {site : Site} {token setting : Option String} :
    start? settings site token setting = some s ↔
      ∃ cors, Cors.ofSetting? setting = some cors ∧ (⟨Engine.start settings site, token, cors⟩ : Server) = s :=
  Option.map_eq_some_iff

/-- **Which settings of origins work, and what they do.**  A server starts exactly if its setting does not list the wildcard.
Then, if an item of the list could be the value of a header, every answer to a request with an origin names that origin if it is
on the list, and none otherwise; and if there is no such item, every answer says that all origins are allowed. -/
theorem start?_setting (settings : Settings) (site : Site) (token : Option String) (setting : String) :
    ((start? settings site token (some setting)).isSome ↔ "*" ∉ Text.items setting) ∧
    ∀ s, start? settings site token (some setting) = some s → ∀ steps, ∀ x ∈ s.exchanges steps,
      ((∃ e ∈ Text.items setting, Cors.isHeaderValue e = true) →
        ∀ o, x.1.header? "origin" = some o → Cors.isHeaderValue o = true →
          (x.2.allowOrigin = some o ↔ o ∈ Text.items setting) ∧
          (x.2.allowOrigin = none ↔ o ∉ Text.items setting)) ∧
      ((∀ e ∈ Text.items setting, Cors.isHeaderValue e = false) → x.2.allowOrigin = some "*") := by
  refine ⟨by rw [start?, Option.isSome_map, Cors.ofSetting?_isSome_iff], ?_⟩
  intro s hstart steps x hx
  obtain ⟨cors, hcors, rfl⟩ := start?_eq_some_iff.1 hstart
  rw [allowOrigin_of_mem_exchanges hx]
  refine ⟨fun hvalid o horigin ho => ?_, fun hinvalid => ?_⟩
  · have hallowed := Cors.allowed_of_ofSetting? hcors ho hvalid
    rw [horigin]
    dsimp only
    rw [hallowed]
    by_cases hmem : o ∈ Text.items setting <;> simp [hmem]
  · rcases Cors.ofSetting?_eq_some_cases hcors with ⟨rfl, -⟩ | ⟨-, hne⟩
    · rfl
    · obtain ⟨e, he⟩ := List.exists_mem_of_ne_nil _ hne
      obtain ⟨he, hvalue⟩ := Cors.mem_origins.1 he
      rw [hinvalid e he] at hvalue
      cases hvalue

/-- A site with nothing in its catalog and nothing in its cache. -/
def emptySite : Site where
  source := .store {}
  cache := .durable {}
  now := 0

/-- A request from an origin. -/
def asking (origin : String) : Request :=
  { method := "GET", target := ⟨"/health", []⟩, headers := [("Origin", origin)] }

theorem header?_asking (origin : String) : (asking origin).header? "origin" = some origin := by
  have hname : "Origin".toLower = "origin" := by decide +kernel
  simp [Request.header?, asking, hname]

theorem start?_setting_twoOrigins : ∃ s, start? {} emptySite none (some "http://a.example, http://b.example") = some s ∧
    (s.handle (asking "http://b.example")).1.allowOrigin = some "http://b.example" ∧
    (s.handle (asking "http://c.example")).1.allowOrigin = none := by
  have hitems : Text.items "http://a.example, http://b.example" = ["http://a.example", "http://b.example"] := by
    decide +kernel
  obtain ⟨hstarts, hanswers⟩ := start?_setting {} emptySite none "http://a.example, http://b.example"
  rw [hitems] at hstarts hanswers
  obtain ⟨s, hs⟩ := Option.isSome_iff_exists.1 (hstarts.2 (by decide))
  have hanswer (o : String) (ho : Cors.isHeaderValue o = true) :=
    (hanswers s hs [.request (asking o)] (asking o, (s.handle (asking o)).1) (by simp [exchanges, Step.run])).1
      ⟨"http://a.example", by simp, by decide +kernel⟩ o (header?_asking o) ho
  exact ⟨s, hs, (hanswer "http://b.example" (by decide +kernel)).1.2 (by simp),
    (hanswer "http://c.example" (by decide +kernel)).2.2 (by decide)⟩

/-- **With a wildcard on its list of origins a server does not start,** whatever else is on the list. -/
theorem start?_wildcard_eq_none : start? {} emptySite none (some "http://a.example, *") = none := by
  have hwildcard : "*" ∈ Text.items "http://a.example, *" := by decide +kernel
  have hmeaning : Cors.ofSetting? (some "http://a.example, *") = none := by
    rw [← Option.not_isSome_iff_eq_none, Cors.ofSetting?_isSome_iff, not_not]
    exact hwildcard
  rw [start?, hmeaning, Option.map_none]

end Server
end Suggest
