import NewsApi.Controllers.Endpoints
import NewsApi.Http.RequestId
import NewsApi.Middleware.ClientApiKey
import NewsApi.Middleware.ErrorShape
import NewsApi.Middleware.RateLimit

/-! # The application

What becomes of a request on its way through the middleware to a controller, and
how it is answered. The security headers, the compression and the access log
neither decide about a request nor read what is decided. -/
namespace NewsApi.App
open NewsApi.Text NewsApi.Types NewsApi.Config NewsApi.Errors NewsApi.Http NewsApi.Utils
open NewsApi.Controllers NewsApi.Middleware NewsApi.ErrorHandling NewsApi.Services
open NewsApi.Routes (Method Handler Params Outcome)

/-- A request whose target the framework has parsed. -/
structure HttpRequest where
  method : Method
  /-- `req.path` -/
  path : JsString
  /-- what follows the question mark -/
  queryText : JsString
  xRequestId : Option HeaderValue
  xApiKey : Option HeaderValue
  ifNoneMatch : Option HeaderValue

/-- The request as the handlers see it, once it has an id. -/
def HttpRequest.request (req : HttpRequest) (id : JsString) : Request :=
  ⟨some id, req.xRequestId, req.ifNoneMatch⟩

/-- What does not change while the process runs. -/
structure Environment where
  framework : Framework
  platform : Platform
  limiter : LimiterSettings
  /-- `CLIENT_API_KEYS` -/
  clientApiKeys : Option JsString
  /-- `GNEWS_API_KEY` -/
  gnewsApiKey : Option JsString
  /-- `REDIS_URL` -/
  redisUrl : Option JsString
  /-- what the framework answers where no handler is left -/
  finalHandler : HttpRequest → Response

/-- What the process is asked for operational requests. -/
structure Operations where
  uptime : Rat
  draining : Bool
  /-- `none` where there is no client of the limiter's store -/
  ping : Option (Except JsError JsString)
  /-- `none` where there is no file -/
  openApi : Option (Except Thrown JsString)
  metrics : Except Thrown JsString

/-- What is decided about a request outside: by the limiter's library, by the
parser of bodies, and for operational requests. -/
structure Guards where
  verdict : LimiterVerdict
  bodyError : Option Thrown
  operations : Operations

/-! ## Errors -/

/-- An error as the error handler sees it, without what only logs show. -/
def thrownOf : JsError → Thrown
  | .requestAborted => .error ⟨.named ⟨js "AbortError", by decide⟩ true .undefined .undefined,
      js "request aborted", .undefined, .undefined, .undefined⟩
  | .http error => .error ⟨.http (.finite error.statusCode) (js error.code) error.retryAfter,
      js error.message, .undefined, .undefined, .undefined⟩
  | .axios error => .error ⟨.named ⟨js "AxiosError", by decide⟩ false
      (error.code.elim .undefined fun code => .str (js code)) .undefined,
      [], .undefined, .undefined, .undefined⟩
  | .cacheCorruption message => .error ⟨.named ⟨js "CacheCorruptionError", by decide⟩ false
      .undefined .undefined, js message, .undefined, .undefined, .undefined⟩
  | .other name code =>
    -- no other class has this name
    if h : js name = js "HttpError" then .value
    else .error ⟨.named ⟨js name, h⟩ false (code.elim .undefined fun code => .str (js code))
      .undefined, [], .undefined, .undefined, .undefined⟩
  | .value => .value

/-- `decodeURIComponent` has thrown. -/
def uriError : Thrown :=
  .error ⟨.named ⟨js "URIError", by decide⟩ false .undefined (.num (.finite 400)),
    js "Failed to decode param", .undefined, .undefined, .undefined⟩

def methodNotAllowedError : HttpError where
  statusCode := 405
  message := "Method not allowed"
  code := "method_not_allowed"
  retryAfter := none

def routeNotFoundError : HttpError where
  statusCode := 404
  message := "API route not found"
  code := "route_not_found"
  retryAfter := none

def openApiNotFoundError : HttpError where
  statusCode := 404
  message := "OpenAPI spec not found"
  code := "http_error"
  retryAfter := none

/-- What the error handler sends of an error; `headers` have been set before. -/
def errorResponse (req : HttpRequest) (id : JsString) (headers : List (String × JsString))
    (err : Thrown) : Option Response :=
  let res := ((errorHandler err (req.request id) req.path).run { unanswered with headers }).2
  res.answers.head?.map fun answer => ⟨answer.status.toNat, res.headers, stringify answer.body⟩

/-! ## Routes -/

variable (env : Environment)

def texts (members : List (String × String)) : JsonValue :=
  .obj (members.map fun (name, text) => (js name, .str (js text)))

def ready (req : Request) (operations : Operations) : Response :=
  let respond := fun status members => sendJson env.framework req status (texts members)
  if operations.draining then respond 503 [("status", "draining")]
  else if !env.limiter.testing && ((env.gnewsApiKey.map trim).getD []).isEmpty then
    respond 503 [("status", "not_ready"), ("reason", "missing_api_key")]
  else if !isRateLimitStoreReady env.limiter env.redisUrl operations.ping then
    respond 503 [("status", "not_ready"), ("reason", "rate_limit_store_unavailable")]
  else respond 200 [("status", "ready")]

/-- The root's description of the service. -/
def description : JsonValue :=
  .obj [
    (js "name", .str (js "news-api")),
    (js "api", .obj [
      (js "current", .str (js "v1")),
      (js "v1", texts [
        ("articles", "/api/v1/articles"),
        ("articleSearch", "/api/v1/articles/search"),
        ("articleByTitle", "/api/v1/articles/title/\x7btitle\x7d"),
        ("sourceArticles", "/api/v1/sources/\x7bsource\x7d/articles")]),
      (js "legacy", texts [
        ("articles", "/api/articles"),
        ("articleByTitle", "/api/articles/title/\x7btitle\x7d"),
        ("sourceArticles", "/api/articles/source?source=\x7bsource\x7d")])]),
    (js "docs", texts [
      ("readme", "README.md"),
      ("openapi", "/openapi.yaml"),
      ("client", "docs/CLIENT.md"),
      ("operations", "docs/OPERATIONS.md")]),
    (js "observability", texts [
      ("metrics", "/metrics"),
      ("health", "/health"),
      ("ready", "/ready")])]

/-- The handlers that the application has itself. -/
def operational (req : Request) (operations : Operations) :
    Handler → Option (Except Thrown Response)
  | .health => some (.ok (sendJson env.framework req 200
      (.obj [(js "status", .str (js "ok")), (js "uptime", .num operations.uptime)])))
  | .ready => some (.ok (ready env req operations))
  | .openApiYaml => some (match operations.openApi with
    | none => .error (thrownOf (.http openApiNotFoundError))
    | some file => file.map fun text => ⟨200, [], some text⟩)
  | .metrics => some (operations.metrics.map fun text => ⟨200, [], some text⟩)
  | .root => some (.ok (sendJson env.framework req 200 description))
  | _ => none

/-- How far a request comes at once. -/
inductive Routed where
  | responded (res : Response)
  /-- `next(err)`; `headers` have been set -/
  | failed (headers : List (String × JsString)) (err : Thrown)
  /-- no handler of the application is left: the framework answers -/
  | unrouted
  | asked (pending : Pending)

def methodNotAllowed (method : Method) : Routed :=
  let headers := [("Allow", js "GET, HEAD, OPTIONS")]
  if method = .options then .responded ⟨204, headers, none⟩
  else .failed headers (thrownOf (.http methodNotAllowedError))

/-- The router below `/api`, behind its guards. -/
def routeApi (req : HttpRequest) (id : JsString) (path : List JsString) : Routed :=
  match Routes.dispatch req.method path Routes.routes with
  | none => .failed [] (thrownOf (.http routeNotFoundError))
  | some .undecodable => .failed [] uriError
  | some (.handled handler params) =>
    match controller env.framework env.platform (req.request id) params
      (env.framework.parseQuery req.queryText) handler with
    | some (.ok pending) => .asked pending
    | some (.error err) => .failed [] (thrownOf err)
    | none => methodNotAllowed req.method

/-- `app.use("/api", clientApiKeyGate, jsonBodyParser, routes)` -/
def serveApi (req : HttpRequest) (id : JsString) (bodyError : Option Thrown)
    (path : List JsString) : Routed :=
  match clientApiKeyGate env.framework.sha256 env.clientApiKeys req.xApiKey with
  | .error err => .failed [] (thrownOf (.http err))
  | .ok () =>
    match bodyError with
    | some err => .failed [] err
    | none => routeApi env req id path

/-- A request that the limiter has let through. -/
def serveRequest (req : HttpRequest) (id : JsString) (guards : Guards) : Routed :=
  match pathSegments req.path with
  | none => .unrouted
  | some segments =>
    match Routes.dispatch req.method segments Routes.appRoutes with
    | some (.handled handler _) =>
      match operational env (req.request id) guards.operations handler with
      | some (.ok res) => .responded res
      | some (.error err) => .failed [] err
      | none => .unrouted
    | some .undecodable => .failed [] uriError
    | none =>
      match Routes.mounted "api" segments with
      | none => .unrouted
      | some path => serveApi env req id guards.bodyError path

def handle (req : HttpRequest) (id : JsString) (guards : Guards) : Routed :=
  match apiRateLimiter (limiter env.limiter req.path guards.verdict) with
  | .error err =>
    .failed (limiterHeaders env.limiter req.path guards.verdict) (thrownOf (.http err))
  | .ok () => serveRequest env req id guards

/-! ## Who gets to a search -/

/-- Every guard has let the request through, and a controller has validated it. -/
structure Admitted (req : HttpRequest) (id : JsString) (guards : Guards) (pending : Pending) :
    Prop where
  limited : limiter env.limiter req.path guards.verdict = none
  key : clientApiKeyGate env.framework.sha256 env.clientApiKeys req.xApiKey = .ok ()
  body : guards.bodyError = none
  routed : ∃ segments path handler params, pathSegments req.path = some segments ∧
    Routes.mounted "api" segments = some path ∧
    Routes.dispatch req.method path Routes.routes = some (.handled handler params) ∧
    controller env.framework env.platform (req.request id) params
      (env.framework.parseQuery req.queryText) handler = some (.ok pending)

variable {env} {req : HttpRequest} {id : JsString} {guards : Guards} {pending : Pending}

theorem apiRateLimiter_ok {error : Option JsError} (h : apiRateLimiter error = .ok ()) :
    error = none := by
  cases error with
  | none => rfl
  | some error =>
    cases error <;> simp only [apiRateLimiter, reduceCtorEq] at h
    split at h <;> cases h

theorem serveApi_asked {bodyError : Option Thrown} {path : List JsString}
    (h : serveApi env req id bodyError path = .asked pending) :
    clientApiKeyGate env.framework.sha256 env.clientApiKeys req.xApiKey = .ok () ∧
      bodyError = none ∧ ∃ handler params,
        Routes.dispatch req.method path Routes.routes = some (.handled handler params) ∧
        controller env.framework env.platform (req.request id) params
          (env.framework.parseQuery req.queryText) handler = some (.ok pending) := by
  unfold serveApi at h
  split at h
  · cases h
  · rename_i hkey
    split at h
    · cases h
    · refine ⟨hkey, rfl, ?_⟩
      unfold routeApi at h
      split at h
      · cases h
      · cases h
      · rename_i handler params hdispatch
        split at h
        · rename_i found hfound
          cases h
          exact ⟨handler, params, hdispatch, hfound⟩
        · cases h
        · unfold methodNotAllowed at h
          dsimp only at h
          split at h <;> cases h

theorem serveRequest_asked (h : serveRequest env req id guards = .asked pending) :
    ∃ segments path, pathSegments req.path = some segments ∧
      Routes.mounted "api" segments = some path ∧
      serveApi env req id guards.bodyError path = .asked pending := by
  unfold serveRequest at h
  split at h
  · cases h
  · rename_i segments hsegments
    split at h
    · split at h <;> cases h
    · cases h
    · split at h
      · cases h
      · rename_i path hpath
        exact ⟨segments, path, hsegments, hpath, h⟩

theorem handle_asked (h : handle env req id guards = .asked pending) :
    Admitted env req id guards pending := by
  unfold handle at h
  split at h
  · cases h
  · rename_i hlimited
    obtain ⟨segments, path, hsegments, hpath, h⟩ := serveRequest_asked h
    obtain ⟨hkey, hbody, handler, params, hdispatch, hfound⟩ := serveApi_asked h
    exact {
      limited := apiRateLimiter_ok hlimited
      key := hkey
      body := hbody
      routed := ⟨segments, path, handler, params, hsegments, hpath, hdispatch, hfound⟩ }

/-! ## Answers -/

variable (env)

/-- What is sent without a search, if anything. -/
def Routed.response (req : HttpRequest) (id : JsString) : Routed → Option Response
  | .responded res => some res
  | .failed headers err => errorResponse req id headers err
  | .unrouted => some (env.finalHandler req)
  | .asked _ => none

/-- What is sent when the search of a controller has settled, if anything. -/
def settledResponse (req : HttpRequest) (id : JsString) (pending : Pending)
    (outcome : Except JsError ArticleSearchResult) : Option Response :=
  match outcome.bind pending.settled with
  | .ok res => some res
  | .error err => errorResponse req id [] (thrownOf err)

/-- It is made of the articles, or it is the error handler's. -/
theorem settledResponse_eq_some {outcome : Except JsError ArticleSearchResult} {sent : Response}
    (h : settledResponse req id pending outcome = some sent) :
    (∃ result, outcome = .ok result ∧ pending.settled result = .ok sent) ∨
      ∃ err, outcome.bind pending.settled = .error err ∧
        errorResponse req id [] (thrownOf err) = some sent := by
  unfold settledResponse at h
  cases hsettled : outcome.bind pending.settled with
  | error err =>
    rw [hsettled] at h
    exact .inr ⟨err, rfl, h⟩
  | ok done =>
    rw [hsettled] at h
    cases h
    cases outcome with
    | error err => cases hsettled
    | ok result => exact .inl ⟨result, rfl, hsettled⟩

end NewsApi.App
