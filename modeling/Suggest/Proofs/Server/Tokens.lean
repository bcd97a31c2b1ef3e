/-
# Who may use the routes of an administrator

A request on one of these routes is read first, and then it is checked for the token.  So it is refused before the engine is
asked, with a status that names a fault of the request, or it has passed the check (`respond_cases`).

What passes the check is a header with the token, or nothing that can be shown if the token is empty (`authorize_eq_ok_iff`),
for a header that is missing counts as an empty one.  Every request on such a route therefore asks what is allowed, or is
refused, or passes the check in one of the two ways (`handle_admin`).  The second way is no way of carrying the token: where an
empty token is set, requests without any are granted (`granted_without_token`).
-/

import Suggest.Server
import Suggest.Proofs.Engine.Clearing
import Suggest.Proofs.Outcome

namespace Suggest
namespace Server

/-- The paths of the routes of an administrator. -/
def adminPaths : List String := ["/admin/rebuild", "/admin/clear", "/admin/notify"]

/-- Whether a route is one of an administrator. -/
def Route.isAdmin : Route → Bool
  | .rebuild | .clear | .notify => true
  | .health | .search | .stats => false

theorem route?_of_mem_adminPaths {path : String} (h : path ∈ adminPaths) :
    ∃ route, route? path = some route ∧ route.isAdmin = true := by
  simp only [adminPaths, List.mem_cons, List.not_mem_nil, or_false] at h
  rcases h with rfl | rfl | rfl
  · exact ⟨.rebuild, by decide, rfl⟩
  · exact ⟨.clear, by decide, rfl⟩
  · exact ⟨.notify, by decide, rfl⟩

variable {s : Server} {r : Request} {route : Route} {refusal : Refusal}

/-- A header that can be shown is a header. -/
theorem header?_of_visibleHeader? {name value : String} (h : r.visibleHeader? name = some value) :
    r.header? name = some value := (Option.filter_eq_some_iff.1 h).1

theorem tokenOf_eq_iff {token : String} :
    tokenOf r = token ↔ r.visibleHeader? "x-admin-token" = some token ∨
      token = "" ∧ r.visibleHeader? "x-admin-token" = none := by
  rw [tokenOf]
  cases r.visibleHeader? "x-admin-token" with
  | none => simp [eq_comm]
  | some value => simp

/-- **What passes the check** is the token in a header that can be shown, or no such header if the token is empty. -/
theorem authorize_eq_ok_iff : s.authorize r = .ok () ↔ ∃ token, s.token = some token ∧
    (r.visibleHeader? "x-admin-token" = some token ∨ token = "" ∧ r.visibleHeader? "x-admin-token" = none) := by
  rw [authorize]
  cases s.token with
  | none => simp
  | some token => simp [← tokenOf_eq_iff]

theorem status_of_authorize (h : s.authorize r = .error refusal) : refusal.response.status = 401 := by
  rw [authorize] at h
  split at h
  · cases h
    rfl
  · split at h <;> cases h
    rfl

theorem status_of_forced {t : Target} (h : forced t = .error refusal) : refusal.response.status = 400 := by
  rcases bind_eq_error.1 h with h | ⟨value, -, h⟩
  · rw [once] at h
    split at h <;> cases h
    rfl
  · split at h <;> cases h
    rfl

theorem status_of_changeOf (h : changeOf r = .error refusal) : refusal.response.status ∈ [400, 413, 415, 422] := by
  rw [changeOf] at h
  split at h
  split at h
  · cases hread : Change.reader .text (Json.Document.scan (Text.glyphs r.body)).root with
    | ok => simp [hread, Except.mapError] at h
    | error fault =>
      rw [hread] at h
      cases h
      cases fault <;> simp [Refusal.response]
  · cases h
    simp [Refusal.response]
  · cases h
    simp [Refusal.response]

/-- The statuses of a request that is refused before the engine is asked. -/
def faults : List Nat := [400, 401, 405, 413, 415, 422]

/-- What is read of a request and then checked for the token is refused, or it has passed the check. -/
theorem checked_cases {α β : Type} (read : Except Refusal α)
    (hread : ∀ refusal, read = .error refusal → refusal.response.status ∈ faults) (act : α → β) :
    (∃ refusal, (do let a ← read; s.authorize r; return act a) = .error refusal ∧ refusal.response.status ∈ faults) ∨
      s.authorize r = .ok () ∧ ∃ b, (do let a ← read; s.authorize r; return act a) = .ok b := by
  cases hfound : read with
  | error refusal => exact .inl ⟨refusal, rfl, hread refusal hfound⟩
  | ok a =>
    cases hchecked : s.authorize r with
    | error refusal => exact .inl ⟨refusal, rfl, by simp [status_of_authorize hchecked, faults]⟩
    | ok => exact .inr ⟨rfl, act a, rfl⟩

/-- **A request on a route of an administrator is refused,** and its status names a fault of it, or it has passed the check. -/
theorem respond_cases (s : Server) (r : Request) (hadmin : route.isAdmin = true) :
    (∃ refusal, s.respond r route = .error refusal ∧ refusal.response.status ∈ faults) ∨
      s.authorize r = .ok () ∧ ∃ act, s.respond r route = .ok act := by
  cases route with
  | health | search | stats => cases hadmin
  | rebuild => exact checked_cases (forced r.target) (fun _ h => by simp [status_of_forced h, faults]) _
  | clear => exact checked_cases (.ok ()) (fun _ h => nomatch h) fun _ => _
  | notify =>
    refine checked_cases (changeOf r) (fun _ h => ?_) _
    have hstatus := status_of_changeOf h
    simp only [faults, List.mem_cons, List.not_mem_nil, or_false] at hstatus ⊢
    omega

/-- **Who may use the routes of an administrator.**  A request on one of them asks what is allowed, which is answered and
changes nothing; or it is refused, with a status that names a fault of it, and changes nothing; or a token is set, and either
the first value of the header is that token, or the token is empty and there is no header that can be shown. -/
theorem handle_admin (s : Server) (r : Request) (hpath : r.target.path ∈ adminPaths) :
    (r.method = "OPTIONS" ∧ (s.handle r).1.status = 200 ∧ (s.handle r).2 = s) ∨
    ((s.handle r).1.status ∈ faults ∧ (s.handle r).2 = s) ∨
    ∃ token, s.token = some token ∧
      (r.header? "x-admin-token" = some token ∨ token = "" ∧ r.visibleHeader? "x-admin-token" = none) := by
  obtain ⟨route, hroute, hadmin⟩ := route?_of_mem_adminPaths hpath
  rw [handle, hroute]
  dsimp only
  split
  · next hmethod => exact .inl ⟨hmethod, rfl, rfl⟩
  refine .inr ?_
  split
  · rw [serve]
    rcases respond_cases s r hadmin with ⟨refusal, hrefused, hstatus⟩ | ⟨hauthorize, -⟩
    · rw [hrefused]
      exact .inl ⟨hstatus, rfl⟩
    · obtain ⟨token, htoken, hheader⟩ := authorize_eq_ok_iff.1 hauthorize
      exact .inr ⟨token, htoken, hheader.imp_left header?_of_visibleHeader?⟩
  · exact .inl ⟨by simp [faults], rfl⟩

/-- A server with the index of one item loaded and cached, and its administrator's token. -/
def oneItemServer (token : String) : Server := ⟨Engine.oneItemBuilt, some token, .anyone⟩

/-- A request to clear that carries no token. -/
def clearing : Request := { method := "POST", target := ⟨"/admin/clear", []⟩ }

theorem handle_admin_clearing :
    clearing.target.path ∈ adminPaths ∧ (handle (oneItemServer "secret") clearing).2 = oneItemServer "secret" := by
  have hpath : clearing.target.path ∈ adminPaths := by decide
  refine ⟨hpath, ?_⟩
  rcases handle_admin (oneItemServer "secret") clearing hpath with ⟨hmethod, -⟩ | ⟨-, hsame⟩ | ⟨token, htoken, hheader⟩
  · exact absurd hmethod (by decide)
  · exact hsame
  · cases htoken
    rcases hheader with hheader | ⟨hempty, -⟩
    · cases hheader
    · exact absurd hempty (by decide)

/-- **An empty token is no token:** a request that carries none is granted, and what is loaded and cached is dropped. -/
theorem granted_without_token :
    clearing.header? "x-admin-token" = none ∧ (handle (oneItemServer "") clearing).1.status = 200 ∧
      (oneItemServer "").engine.loaded = true ∧ (handle (oneItemServer "") clearing).2.engine.loaded = false ∧
      (handle (oneItemServer "") clearing).2.engine.site.cache.held "trie_search_index" = none := by
  have hhandle : (handle (oneItemServer "") clearing).2.engine = Engine.oneItemBuilt.clear.2 := rfl
  rw [hhandle]
  exact ⟨rfl, rfl, rfl, rfl, Engine.held_clear rfl⟩

end Server
end Suggest
