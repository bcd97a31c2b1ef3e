/-
# Requests that are refused leave no trace

A request that is answered with a fault of its own, that is with a status from 400 to 499, was refused before the engine was asked
for anything: what the engine comes to is a success, or a failure of the server (`status_of_respond`).  So the server afterwards is
the server before (`handle_of_isFault`).

Hence nobody can tell from the other answers that there was such a request.  In every run of requests, changes of the catalog's
files, restarts and passing time, the requests that are refused can be left out, and what remains is answered as it was
(`exchanges_remaining`).
-/

import Suggest.Server
import Suggest.Proofs.Outcome

namespace Suggest
namespace Server

/-- Whether a response names a fault of the request. -/
def Response.isFault (r : Response) : Bool := 400 ≤ r.status && r.status < 500

/-- The status of an answer, or of the response to a failure. -/
def statusOf : Except Refusal Response → Nat
  | .ok response => response.status
  | .error refusal => refusal.response.status

/-- The statuses of a success and of a failure of the server. -/
def outcomes : List Nat := [200, 202, 500, 503]

theorem not_isFault_of_mem_outcomes {response : Response} (h : response.status ∈ outcomes) : response.isFault = false := by
  simp only [outcomes, List.mem_cons, List.not_mem_nil, or_false] at h
  rcases h with h | h | h | h <;> simp [Response.isFault, h]

variable {s : Server} {r : Request} {route : Route}

theorem status_of_answered {α : Type} {call : Except Engine.Failure α × Engine} {answer : α → Engine → Response}
    (h : ∀ a e, (answer a e).status ∈ outcomes) : statusOf (answered call answer).1 ∈ outcomes := by
  rw [answered]
  cases call.1 with
  | ok a => exact h a call.2
  | error f => cases f <;> simp [statusOf, Refusal.response, Engine.Failure.isRetriable, outcomes]

/-- **What the engine comes to** is a success or a failure of the server. -/
theorem status_of_respond {act : Engine → Except Refusal Response × Engine} (h : s.respond r route = .ok act)
    (e : Engine) : statusOf (act e).1 ∈ outcomes := by
  cases route with
  | health | stats =>
    cases h
    simp [statusOf, found, outcomes]
  | search =>
    obtain ⟨q, -, h⟩ := bind_eq_ok.1 h
    cases h
    simp [statusOf, found, outcomes]
  | rebuild =>
    obtain ⟨force, -, h⟩ := bind_eq_ok.1 h
    obtain ⟨_, -, h⟩ := bind_eq_ok.1 h
    cases h
    exact status_of_answered fun _ _ => by simp [found, outcomes]
  | clear =>
    obtain ⟨_, -, h⟩ := bind_eq_ok.1 h
    cases h
    exact status_of_answered fun _ _ => by simp [found, outcomes]
  | notify =>
    obtain ⟨change, -, h⟩ := bind_eq_ok.1 h
    obtain ⟨_, -, h⟩ := bind_eq_ok.1 h
    cases h
    exact status_of_answered fun _ _ => by simp [outcomes]

/-- A request on a route is refused, and changes nothing, or what the engine comes to is the answer. -/
theorem serve_cases (s : Server) (r : Request) (route : Route) :
    (s.serve r route).2 = s ∨ (s.serve r route).1.status ∈ outcomes := by
  rw [serve]
  cases hact : s.respond r route with
  | error refusal => exact .inl rfl
  | ok act =>
    have hstatus := status_of_respond hact s.engine
    refine .inr ?_
    dsimp only
    cases hresponse : (act s.engine).1 with
    | error refusal =>
      rw [hresponse] at hstatus
      exact hstatus
    | ok response =>
      rw [hresponse] at hstatus
      dsimp only
      split <;> exact hstatus

/-- **A request that is refused changes nothing.** -/
theorem handle_of_isFault (h : (s.handle r).1.isFault = true) : (s.handle r).2 = s := by
  rw [handle] at h ⊢
  dsimp only at h ⊢
  split
  · rfl
  · next hmethod =>
    rw [if_neg hmethod] at h
    split
    · rfl
    · next route hroute =>
      rw [hroute] at h
      dsimp only at h
      split
      · next hallowed =>
        rw [if_pos hallowed] at h
        refine (serve_cases s r route).resolve_right fun hstatus => ?_
        have hfault : (s.serve r route).1.isFault = true := h
        rw [not_isFault_of_mem_outcomes hstatus] at hfault
        cases hfault
      · rfl

/-! ### Runs -/

/-- What can happen to a server: a request, or something around it. -/
inductive Step where
  | request (r : Request)
  | filesChange (change : FileTree → FileTree)
  /-- A new engine takes the place of the old one, and there may be another token. -/
  | restart (settings : Settings) (token : Option String)
  | time (now : Moment)

/-- The request with its response, if the step is one, and the server afterwards. -/
def Step.run (s : Server) : Step → Option (Request × Response) × Server
  | .request r => (some (r, (s.handle r).1), (s.handle r).2)
  | .filesChange change =>
    (none, { s with engine := { s.engine with site := { s.engine.site with
      source := s.engine.site.source.modifyFiles change } } })
  | .restart settings token => (none, { s with engine := s.engine.restart settings, token })
  | .time now => (none, { s with engine := { s.engine with site := { s.engine.site with now } } })

/-- The requests of a run with their responses. -/
def exchanges (s : Server) : List Step → List (Request × Response)
  | [] => []
  | step :: rest => (step.run s).1.toList ++ exchanges (step.run s).2 rest

/-- The server after a run. -/
def after (s : Server) (steps : List Step) : Server := steps.foldl (fun s step => (step.run s).2) s

/-- Whether a step is a request that is refused. -/
def Step.isRefused (s : Server) (step : Step) : Bool := (step.run s).1.any fun x => x.2.isFault

/-- The steps of a run without the requests that are refused in it. -/
def remaining (s : Server) : List Step → List Step
  | [] => []
  | step :: rest => if step.isRefused s then remaining (step.run s).2 rest else step :: remaining (step.run s).2 rest

/-- A refused request leaves nothing but its response. -/
theorem run_of_isRefused {step : Step} (h : step.isRefused s = true) :
    (step.run s).2 = s ∧ (step.run s).1.toList.filter (fun x => !x.2.isFault) = [] := by
  cases step with
  | request r =>
    have hfault : (s.handle r).1.isFault = true := h
    exact ⟨handle_of_isFault hfault, by simp [Step.run, hfault]⟩
  | filesChange | restart | time => cases h

theorem filter_of_not_isRefused {step : Step} (h : step.isRefused s = false) :
    (step.run s).1.toList.filter (fun x => !x.2.isFault) = (step.run s).1.toList := by
  rw [Step.isRefused] at h
  cases hexchange : (step.run s).1 with
  | none => rfl
  | some x =>
    rw [hexchange] at h
    simpa using h

/-- **Requests that are refused leave no trace.**  If they are left out of a run, the other requests are answered as they were,
and the server afterwards is the same. -/
theorem exchanges_remaining (s : Server) (steps : List Step) :
    s.exchanges (s.remaining steps) = (s.exchanges steps).filter (fun x => !x.2.isFault) ∧
      s.after (s.remaining steps) = s.after steps := by
  induction steps generalizing s with
  | nil => exact ⟨rfl, rfl⟩
  | cons step rest ih =>
    obtain ⟨hexchanges, hafter⟩ := ih (step.run s).2
    rw [remaining, exchanges, List.filter_append, ← hexchanges]
    cases hrefused : step.isRefused s with
    | true =>
      obtain ⟨hsame, hnothing⟩ := run_of_isRefused hrefused
      rw [if_pos rfl, hnothing, List.nil_append]
      refine ⟨by rw [hsame], ?_⟩
      rw [hsame] at hafter ⊢
      rw [hafter, after, after, List.foldl_cons, hsame]
    | false =>
      rw [if_neg Bool.false_ne_true, filter_of_not_isRefused hrefused]
      exact ⟨rfl, hafter⟩

end Server
end Suggest
