/-
# The search server

| route | methods | answer |
| --- | --- | --- |
| `/health` | `GET`, `HEAD` | `ok` |
| `/search` | `GET`, `HEAD` | the entries found for `q`, at most `limit`, of the `categories` only |
| `/stats` | `GET`, `HEAD` | the statistics |
| `/admin/rebuild` | `POST` | what the build comes to, forced if `force` says so |
| `/admin/clear` | `POST` | the statistics afterwards |
| `/admin/notify` | `POST` | nothing, after a change in the body was taken in |

A request is refused before anything happens: for an unknown route (404), another method (405), a query or a body that
cannot be read (400, 415, 422) or a body that is too long (413), and then, on the routes of an administrator, for a missing
or wrong token (401). Requests with the method `OPTIONS` ask what is allowed, and that is always answered. A search without
an answer has found nothing.
-/

import Suggest.Engine
import Suggest.Server.Cors
import Suggest.Server.MediaType
import Suggest.Server.Target
import Suggest.Text.Natural

namespace Suggest

namespace Server

/-- A request: its method, its target, the names and values of its headers, and its body. -/
structure Request where
  method : String
  target : Target
  headers : List (String × String) := []
  body : Bytes := []

/-- The first value of a header, whose name may be written in any case. -/
def Request.header? (r : Request) (name : String) : Option String :=
  (r.headers.find? fun h => h.1.toLower = name).map Prod.snd

/-- Whether the character can be shown, and takes no more than a byte. -/
def isVisible (c : Char) : Bool := c = '\t' || (32 ≤ c.toNat && c.toNat < 127)

/-- The first value of a header, if all of it can be shown. -/
def Request.visibleHeader? (r : Request) (name : String) : Option String :=
  (r.header? name).filter fun value => value.toList.all isVisible

/-- The body of a response. -/
inductive Body where
  | nothing
  | text (s : String)
  | json (written : List Char)
  deriving DecidableEq

/-- A response: its status, its body, and the origin that it names as allowed. -/
structure Response where
  status : Nat
  body : Body := .nothing
  allowOrigin : Option String := none

/-- Why a request is refused. -/
inductive Refusal where
  | badQuery
  | badMediaType
  | longBody
  | badBody (fault : Json.Fault)
  | noTokenSet
  | wrongToken
  | failed (f : Engine.Failure)
  deriving DecidableEq

/-- The response to a request that is refused. -/
def Refusal.response : Refusal → Response
  | .badQuery => { status := 400 }
  | .badMediaType => { status := 415 }
  | .longBody => { status := 413 }
  | .badBody .mismatched => { status := 422 }
  | .badBody _ => { status := 400 }
  | .noTokenSet => { status := 401, body := .text "ADMIN_TOKEN not set" }
  | .wrongToken => { status := 401, body := .text "invalid admin token" }
  | .failed f => { status := if f.isRetriable then 503 else 500, body := .text f.message }

/-- What a request is for. -/
inductive Route where
  | health
  | search
  | stats
  | rebuild
  | clear
  | notify
  deriving DecidableEq, Repr

/-- The route with a path. -/
def route? (path : String) : Option Route :=
  [("/health", .health), ("/search", .search), ("/stats", .stats), ("/admin/rebuild", .rebuild),
    ("/admin/clear", .clear), ("/admin/notify", Route.notify)].lookup path

/-- The methods of a route. -/
def Route.methods : Route → List String
  | .health | .search | .stats => ["GET", "HEAD"]
  | .rebuild | .clear | .notify => ["POST"]

/-- The value of a field that may occur once at most. -/
def once (t : Target) (name : String) : Except Refusal (Option String) :=
  match t.values name with
  | [] => .ok none
  | [value] => .ok (some value)
  | _ => .error .badQuery

/-- What a search asks for. -/
structure Query where
  query : String
  limit : Nat
  categories : Option (List String)

/-- The categories on a list with commas between them, or none if it is a list of nothing. -/
def categoriesOf (list : String) : Option (List String) :=
  let categories := (Text.items list).filter fun s => !s.isEmpty
  if categories.isEmpty then none else some categories

/-- What the target of a search asks for. -/
def Query.ofTarget (t : Target) : Except Refusal Query := do
  let query ← once t "q"
  let limit ← once t "limit"
  let categories ← once t "categories"
  let limit ← match limit with
    | none => .ok 0
    | some text => match Text.natural? Json.Reader.maxWord text with
      | some n => .ok n
      | none => .error .badQuery
  match query with
  | some query => return ⟨query, limit, categories.bind categoriesOf⟩
  | none => .error .badQuery

/-- Whether the target of a rebuild forces it. -/
def forced (t : Target) : Except Refusal Bool := do
  match ← once t "force" with
  | none | some "false" => return false
  | some "true" => return true
  | some _ => .error .badQuery

/-- How many bytes of a body are read at most. -/
def maxBody : Nat := 2097152

/-- The change in the body of a request, if it is not too long to be read. What follows the change there is not looked at. -/
def changeOf (r : Request) : Except Refusal Change :=
  if (r.visibleHeader? "content-type").any MediaType.isJson then
    if r.body.length ≤ maxBody then
      (Change.reader .text (Json.Document.scan (Text.glyphs r.body)).root).mapError .badBody
    else .error .longBody
  else .error .badMediaType

/-- The token that a request carries, which is empty if it carries none. -/
def tokenOf (r : Request) : String := (r.visibleHeader? "x-admin-token").getD ""

end Server

/-- A server: its engine, the token of its administrator, and the origins that may use its answers. -/
structure Server where
  engine : Engine
  token : Option String
  cors : Server.Cors

namespace Server

/-- A new server at a site, unless its setting of origins has no meaning. -/
def start? (settings : Settings) (site : Site) (token origins : Option String) : Option Server :=
  (Cors.ofSetting? origins).map fun cors => ⟨Engine.start settings site, token, cors⟩

/-- Refuse a request that does not carry the token. -/
def authorize (s : Server) (r : Request) : Except Refusal Unit :=
  match s.token with
  | none => .error .noTokenSet
  | some token => if tokenOf r = token then .ok () else .error .wrongToken

/-- A JSON response. -/
def found (written : List Char) : Response := { status := 200, body := .json written }

/-- What a build came to, in JSON. -/
def writeOutcome : Engine.Outcome → List Char
  | .alreadyLoaded => Json.object [("outcome", Json.string "already_loaded")]
  | .fromCache => Json.object [("outcome", Json.string "from_cache")]
  | .built report =>
    Json.object [
      ("outcome", Json.string "built"),
      ("items", Json.natural report.items),
      ("parts", Json.natural report.parts),
      ("entries", Json.natural report.entries)]

/-- What a search found, in JSON. -/
def writeFound (query : String) (entries : List Entry) : List Char :=
  Json.object [
    ("query", Json.string query),
    ("total_hits", Json.natural entries.length),
    ("results", Json.array (entries.map Entry.write))]

/-- The answer to an engine's call, and the engine afterwards. -/
def answered {α : Type} (call : Except Engine.Failure α × Engine) (answer : α → Engine → Response) :
    Except Refusal Response × Engine :=
  (match call.1 with
    | .ok a => .ok (answer a call.2)
    | .error f => .error (.failed f), call.2)

/-- What an engine is asked to do by a request that may be answered. -/
def respond (s : Server) (r : Request) : Route → Except Refusal (Engine → Except Refusal Response × Engine)
  | .health => .ok fun e => (.ok { status := 200, body := .text "ok" }, e)
  | .search => do
    let q ← Query.ofTarget r.target
    return fun e =>
      let (entries, e) := e.search? q.query q.limit q.categories
      (.ok (found (writeFound q.query (entries.getD []))), e)
  | .stats => .ok fun e => (.ok (found e.stats.write), e)
  | .rebuild => do
    let force ← forced r.target
    s.authorize r
    return fun e => answered (e.build force) fun outcome e =>
      found (Json.object [("result", writeOutcome outcome), ("stats", e.stats.write)])
  | .clear => do
    s.authorize r
    return fun e => answered e.clear fun _ e => found e.stats.write
  | .notify => do
    let change ← changeOf r
    s.authorize r
    return fun e => answered (e.onChange change) fun _ _ => { status := 202, body := .text "" }

/-- The response to a request on a route, and the server afterwards. -/
def serve (s : Server) (r : Request) (route : Route) : Response × Server :=
  match s.respond r route with
  | .error refusal => (refusal.response, s)
  | .ok act =>
    let (response, engine) := act s.engine
    (match response with
      | .ok response => if r.method = "HEAD" then { response with body := .text "" } else response
      | .error refusal => refusal.response, { s with engine })

/-- The response to a request, and the server afterwards. -/
def handle (s : Server) (r : Request) : Response × Server :=
  let (response, after) : Response × Server :=
    if r.method = "OPTIONS" then ({ status := 200, body := .text "" }, s)
    else match route? r.target.path with
      | none => ({ status := 404 }, s)
      | some route => if route.methods.contains r.method then s.serve r route else ({ status := 405 }, s)
  ({ response with allowOrigin := s.cors.allowed (r.header? "origin") }, after)

end Server

end Suggest
