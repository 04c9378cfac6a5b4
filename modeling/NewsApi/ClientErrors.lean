import NewsApi.Client.HttpFailures
import NewsApi.Http.ReadBack
import NewsApi.SearchAnswers

/-! # Errors as the client has them

Whatever raised it, an error that a server answers on a versioned path is the
error that the client's method rejects with: status, code, message, request id and
delay come through the texts of both sides. -/
namespace NewsApi.App
open NewsApi.Async NewsApi.Text NewsApi.Types NewsApi.Config NewsApi.Errors NewsApi.Http
open NewsApi.Controllers NewsApi.Services NewsApi.Cache NewsApi.ErrorHandling NewsApi.JsonText
open NewsApi.Middleware
open NewsApi.Utils (IsDouble)

/-! ## From the response to the client's error -/

/-- What `fetch` makes of a response. The body is well-formed, so its bytes are
decoded to the same text. -/
def fetched (res : Response) : Client.FetchResponse where
  status := res.status
  headers := res.headers.map fun (name, value) => (name.toLower, value)
  text := res.body.getD []

/-- The client's error for `err`, with the delay of the response. -/
def clientErrorOf (id : JsString) (err : Thrown) (delay : Option JsString) : Client.ClientError :=
  .newsApi ((reply err).message.getD []) (toInt32 (reply err).statusCode).toNat
    (.str ((reply err).code.getD [])) (.str id) delay

/-- `headers.get("retry-after")` -/
def retryAfterOf (headers : List (String × JsString)) : Option JsString :=
  (headers.map fun (name, value) => (name.toLower, value)).lookup "retry-after"

theorem retryAfter_lower : "Retry-After".toLower = "retry-after" := by decide +kernel

/-- Where nothing else has set a delay, it is the error's. -/
theorem retryAfterOf_retryHeader {headers : List (String × JsString)}
    (h : retryAfterOf headers = none) (err : Thrown) :
    retryAfterOf (headers ++ retryHeader err) = (reply err).retryAfter := by
  unfold retryAfterOf at h ⊢
  rw [List.map_append, List.lookup_append, h, Option.none_or]
  unfold retryHeader
  cases (reply err).retryAfter with
  | none => rfl
  | some value =>
    simp only [Option.map_some, Option.toList_some, List.map_cons, List.map_nil, retryAfter_lower]
    rfl

theorem retryAfterOf_first (value : JsString) (headers : List (String × JsString)) :
    retryAfterOf (("Retry-After", value) :: headers) = some value := by
  simp only [retryAfterOf, List.map_cons, retryAfter_lower, List.lookup_cons_self]

theorem structuredBody_read (code message id : JsString) : ∃ text,
    stringify (structuredBody (some code) (some message) id) = some text ∧
      parseJson text = some (.obj [(js "error", .obj [(js "code", .str code),
        (js "message", .str message), (js "requestId", .str id)])]) := by
  have hnumbers : ∀ n ∈ numbersOf (structuredBody (some code) (some message) id), IsDouble n := by
    intro n hn
    cases hn
  have hread := parseJson_stringify hnumbers
  obtain ⟨text, htext, hparse⟩ := Option.bind_eq_some_iff.mp (hread.trans rfl)
  exact ⟨text, htext, hparse⟩

theorem failureOf_structured {res : Client.FetchResponse} {text code message id : JsString}
    (htext : stringify (structuredBody (some code) (some message) id) = some text)
    (hres : res.text = text) :
    Client.failureOf res = .newsApi message res.status (.str code) (.str id)
      (res.headers.lookup "retry-after") := by
  obtain ⟨other, hother, hparse⟩ := structuredBody_read code message id
  cases hother.symm.trans htext
  have hempty : text.isEmpty = false := by
    cases text with
    | nil => cases Client.parseJson_nil.symm.trans hparse
    | cons c rest => rfl
  unfold Client.failureOf Client.readJson
  rw [hres, hempty, hparse]
  rfl

/-- A response of the error handler on a versioned path, to a request with a body
in its response. -/
theorem failureOf_sent {x : Exchange} {headers : List (String × JsString)} {err : Thrown}
    (hanswerable : IsAnswerable err) (hid : requestId (x.request.request x.id) = x.id)
    (hpath : usesStructuredErrors x.request.path = true) (hmethod : x.request.method ≠ .head) :
    Client.failureOf (fetched (x.sends (sentFor x.request x.id headers err))) =
      clientErrorOf x.id err (retryAfterOf (headers ++ retryHeader err)) := by
  have hsafe := isSafe_of_answerable hanswerable
  obtain ⟨code, hcode⟩ := Option.isSome_iff_exists.mp hsafe.code
  obtain ⟨message, hmessage⟩ := Option.isSome_iff_exists.mp hsafe.message
  obtain ⟨text, htext, -⟩ := structuredBody_read code message x.id
  have hbody : (fetched (x.sends (sentFor x.request x.id headers err))).text = text := by
    simp only [fetched, Exchange.sends, sentFor, if_neg hmethod, errorBody, if_pos hpath, hid,
      hcode, hmessage, htext, Option.getD_some]
  have hretry : (fetched (x.sends (sentFor x.request x.id headers err))).headers.lookup
      "retry-after" = retryAfterOf (headers ++ retryHeader err) := by
    simp only [fetched, Exchange.sends, sentFor, List.map_cons, List.lookup_cons]
    rw [show ("retry-after" == "X-Request-Id".toLower) = false by decide +kernel]
    rfl
  rw [failureOf_structured htext hbody, hretry, clientErrorOf, hcode, hmessage]
  rfl

/-! ## Versioned paths -/

/-- What is decided about a request at once. -/
inductive VersionedRouting (env : Environment) (req : HttpRequest) (guards : Guards) :
    Routed → Prop
  /-- the one delay that an error does not bring with it -/
  | limited {resetSeconds : Nat} (hcounted : skipRateLimit env.limiter req.path = false)
    (hverdict : guards.verdict = .exceeded resetSeconds) : VersionedRouting env req guards
      (.failed [("Retry-After", decimal resetSeconds)] (thrownOf (.http rateLimitExceeded)))
  | failed {headers : List (String × JsString)} {err : Thrown} (h : retryAfterOf headers = none) :
    VersionedRouting env req guards (.failed headers err)
  | options {res : Response} (h : res.status = 204) :
    VersionedRouting env req guards (.responded res)
  | asked {pending : Pending} (h : ∀ result res, pending.settled result = .ok res →
      res.status = 200 ∨ res.status = 304) : VersionedRouting env req guards (.asked pending)

variable {env : Environment} {req : HttpRequest} {id : JsString} {guards : Guards}

theorem versioned_segments (h : usesStructuredErrors req.path = true) :
    ∃ others, pathSegments req.path = some (js "api" :: js "v1" :: others) := by
  have hslash : ∃ segments, pathSegments req.path = some segments := by
    obtain ⟨tail, htail⟩ := List.isPrefixOf_iff_prefix.mp h
    rw [← htail]
    exact ⟨_, rfl⟩
  obtain ⟨segments, hsegments⟩ := hslash
  obtain ⟨others, rfl⟩ := structured_segments hsegments h
  exact ⟨others, hsegments⟩

/-- Whoever is over the quota is told when the window ends; otherwise the library
announces nothing. -/
theorem limiter_versioned {error : HttpError}
    (h : apiRateLimiter (limiter env.limiter req.path guards.verdict) = .error error) :
    VersionedRouting env req guards
      (.failed (limiterHeaders env.limiter req.path guards.verdict) (thrownOf (.http error))) := by
  unfold limiter at h
  unfold limiterHeaders
  split at h
  · cases h
  · rename_i hskip
    rw [if_neg hskip]
    cases hverdict : guards.verdict with
    | within =>
      rw [hverdict] at h
      cases h
    | exceeded resetSeconds =>
      rw [hverdict] at h
      cases h
      exact .limited (Bool.eq_false_iff.mpr hskip) hverdict
    | storeError => exact .failed rfl

theorem methodNotAllowed_versioned (method : Routes.Method) :
    VersionedRouting env req guards (methodNotAllowed method) := by
  unfold methodNotAllowed
  dsimp only
  split
  · exact .options rfl
  · refine .failed ?_
    have hname : ("retry-after" == "Allow".toLower) = false := by decide +kernel
    simp only [retryAfterOf, List.map_cons, List.map_nil, List.lookup_cons, hname, List.lookup_nil]

theorem routeApi_versioned {path : List JsString} (hlegacy : ∀ handler params,
    Routes.dispatch req.method path Routes.routes = some (.handled handler params) →
      isLegacy handler = false) : VersionedRouting env req guards (routeApi env req id path) := by
  unfold routeApi
  split
  · exact .failed rfl
  · exact .failed rfl
  · rename_i handler params hdispatch
    split
    · rename_i pending hpending
      refine .asked fun result res hres => ?_
      cases controller_delivers hpending result with
      | sent hsettled hstatus =>
        cases hsettled.symm.trans hres
        rcases hstatus with hstatus | hstatus | ⟨-, hkind⟩
        · exact .inl hstatus
        · exact .inr hstatus
        · cases (hlegacy handler params hdispatch).symm.trans hkind
      | missing hsettled => cases hsettled.symm.trans hres
    · exact .failed rfl
    · exact methodNotAllowed_versioned req.method

theorem handle_versioned (h : usesStructuredErrors req.path = true) :
    VersionedRouting env req guards (handle env req id guards) := by
  obtain ⟨others, hsegments⟩ := versioned_segments h
  unfold handle
  split
  · rename_i hlimited
    exact limiter_versioned hlimited
  · have happ : ∀ method, Routes.dispatch method (js "api" :: js "v1" :: others)
        Routes.appRoutes = none := fun _ => rfl
    have hmounted : Routes.mounted "api" (js "api" :: js "v1" :: others) =
        some (js "v1" :: others) := rfl
    unfold serveRequest
    rw [hsegments]
    dsimp only
    rw [happ, hmounted]
    dsimp only
    unfold serveApi
    split
    · exact .failed rfl
    · split
      · exact .failed rfl
      · refine routeApi_versioned fun handler params hdispatch => ?_
        rw [Bool.eq_false_iff]
        intro hkind
        have hserve : Routes.servePath req.method (js "api" :: js "v1" :: others) =
            some (.handled handler params) := by
          rw [Routes.servePath, happ, hmounted]
          exact hdispatch
        have hlegacy := legacy_unstructured ⟨_, _, handler, params, hsegments, hserve, hkind⟩
        cases hlegacy.symm.trans h

/-! ## In a deployment -/

section
variable {settings : Settings} {honest : Bool} {s s' : Deployment} {x : Exchange}

/-- Ids are generated on arrival and stay. -/
theorem ids_normal {replicas : Nat} {db : Lease.Db}
    (hs : Reachable (deploymentStep settings env honest) (.initial replicas db) s) :
    ∀ x ∈ s.exchanges, IsNormalId x.id := by
  refine hs.invariant (P := fun s : Deployment => ∀ x ∈ s.exchanges, IsNormalId x.id)
    (List.forall_mem_nil _) fun s ev s' h hstep => ?_
  have hput : ∀ {k : Nat} {x x' : Exchange}, s.exchanges[k]? = some x → x'.id = x.id →
      ∀ y ∈ s.exchanges.set k x', IsNormalId y.id := by
    intro k x x' hx hid y hy
    rcases List.mem_or_eq_of_mem_set hy with hy | rfl
    · exact h y hy
    · exact hid ▸ h x (List.mem_of_getElem? hx)
  cases deploymentStep_effect hstep with
  | arrived server request uuid =>
    exact List.forall_mem_append.mpr ⟨h, List.forall_mem_singleton.mpr (genReqId_normal _ uuid)⟩
  | answered guards hx => exact hput hx rfl
  | asked guards randoms uuid hx => exact hput hx rfl
  | worked => exact h
  | settled hx => exact hput hx rfl
  | closed hx => exact hput hx rfl
  | left hx => exact hput hx rfl

theorem fetched_ok (x : Exchange) {res : Response} (h : res.status = 200 ∨ res.status = 204) :
    (fetched (x.sends res)).ok = true := by
  have hstatus : (fetched (x.sends res)).status = res.status := rfl
  unfold Client.FetchResponse.ok
  rw [hstatus]
  rcases h with h | h <;> rw [h] <;> rfl

/-- What the exchange has ended with is `err`, and `delay` is announced. -/
inductive Raised (env : Environment) (c : Cluster) (x : Exchange) : Thrown → Option JsString → Prop
  /-- over the quota: the window's end is announced -/
  | limited {guards : Guards} {resetSeconds : Nat} (hguards : x.guards = some guards)
    (hcounted : skipRateLimit env.limiter x.request.path = false)
    (hverdict : guards.verdict = .exceeded resetSeconds) :
    Raised env c x (thrownOf (.http rateLimitExceeded)) (some (decimal resetSeconds))
  | atOnce {guards : Guards} {headers : List (String × JsString)} {err : Thrown}
    (hguards : x.guards = some guards)
    (hfailed : handle env x.request x.id guards = .failed headers err)
    (hheaders : retryAfterOf headers = none) : Raised env c x err (reply err).retryAfter
  | settled {i : Nat} {pending : Pending} {call : Call}
    {outcome : Except JsError ArticleSearchResult} {error : JsError}
    (hown : OwnCall c x i pending call) (hout : call.outcome = some outcome)
    (hfailed : outcome.bind pending.settled = .error error) :
    Raised env c x (thrownOf error) (reply (thrownOf error)).retryAfter

/-- What a response on a versioned path is. -/
inductive VersionedResponse (env : Environment) (c : Cluster) (x : Exchange) : Response → Prop
  | error {headers : List (String × JsString)} {err : Thrown}
    (hraised : Raised env c x err (retryAfterOf (headers ++ retryHeader err)))
    (hanswerable : IsAnswerable err) :
    VersionedResponse env c x (x.sends (sentFor x.request x.id headers err))
  | options {sent : Response} (hstatus : sent.status = 204) :
    VersionedResponse env c x (x.sends sent)
  | delivered {sent : Response} (hstatus : sent.status = 200 ∨ sent.status = 304) :
    VersionedResponse env c x (x.sends sent)

theorem Progress.versioned {c : Cluster} (h : Progress env c x)
    (hpath : usesStructuredErrors x.request.path = true) {res : Response}
    (hres : res ∈ x.responses) : VersionedResponse env c x res := by
  cases h with
  | guarded _ _ _ hnone => cases hnone ▸ hres
  | searching _ _ _ _ hnone => cases hnone ▸ hres
  | @answered guards hguards _ hnot _ hanswer =>
    obtain ⟨sent, hsent, rfl⟩ := mem_sent (hanswer ▸ hres)
    have hrouting : VersionedRouting env x.request guards (handle env x.request x.id guards) :=
      handle_versioned hpath
    cases hhandled : handle env x.request x.id guards with
    | asked pending => exact absurd hhandled (hnot pending)
    | unrouted => cases hhandled ▸ hrouting
    | responded done =>
      rw [hhandled] at hrouting hsent
      cases hsent
      cases hrouting with
      | options hstatus => exact .options hstatus
    | failed headers err =>
      rw [hhandled] at hrouting hsent
      obtain ⟨hanswerable, rfl⟩ := errorResponse_eq_some hsent
      refine .error ?_ hanswerable
      cases hrouting with
      | limited hcounted hverdict =>
        rw [List.singleton_append, retryAfterOf_first]
        exact .limited hguards hcounted hverdict
      | failed hheaders =>
        rw [retryAfterOf_retryHeader hheaders]
        exact .atOnce hguards hhandled hheaders
  | @settled guards i pending call outcome _ hhandled hown hout _ hanswer =>
    obtain ⟨sent, hsent, rfl⟩ := mem_sent (hanswer ▸ hres)
    rcases settledResponse_eq_some hsent with ⟨result, rfl, hsettled⟩ | ⟨error, hfailed, hsent⟩
    · have hrouting : VersionedRouting env x.request guards (handle env x.request x.id guards) :=
        handle_versioned hpath
      rw [hhandled] at hrouting
      cases hrouting with
      | asked hstatuses => exact .delivered (hstatuses result sent hsettled)
    · obtain ⟨hanswerable, rfl⟩ := errorResponse_eq_some hsent
      refine .error ?_ hanswerable
      rw [retryAfterOf_retryHeader rfl]
      exact .settled hown hout hfailed

/-- What is neither a success nor a 304 is an error's. -/
theorem VersionedResponse.raised {c : Cluster} {res : Response} (h : VersionedResponse env c x res)
    (hid : requestId (x.request.request x.id) = x.id)
    (hpath : usesStructuredErrors x.request.path = true) (hmethod : x.request.method ≠ .head)
    (hok : (fetched res).ok = false) (hfresh : res.status ≠ 304) : ∃ err delay,
      Raised env c x err delay ∧ Client.failureOf (fetched res) = clientErrorOf x.id err delay := by
  cases h with
  | error hraised hanswerable =>
    exact ⟨_, _, hraised, failureOf_sent hanswerable hid hpath hmethod⟩
  | options hstatus => cases (fetched_ok x (.inr hstatus)).symm.trans hok
  | delivered hstatus =>
    rcases hstatus with hstatus | hstatus
    · cases (fetched_ok x (.inl hstatus)).symm.trans hok
    · exact absurd hstatus hfresh

/-- **Errors come through.** In every reachable state of a deployment, a response on a
versioned path that is neither a success nor a 304 makes the client's method reject
with the error that the exchange has ended with: its status, code, message and the
delay announced with it, and the id of the request. -/
theorem errors_come_through {replicas : Nat} {db : Lease.Db}
    (hs : Reachable (deploymentStep settings env honest) (.initial replicas db) s)
    (hx : x ∈ s.exchanges) (hpath : usesStructuredErrors x.request.path = true)
    (hmethod : x.request.method ≠ .head) {res : Response} (hres : res ∈ x.responses)
    (hok : (fetched res).ok = false) (hfresh : res.status ≠ 304)
    {authorityOf : JsString → JsString → Option JsString} {client : Client.NewsApiClient}
    {call : Client.Call} {req : Client.FetchRequest}
    {fetchImpl : Client.FetchRequest → Client.FetchResponse}
    (hsent : Client.request authorityOf client call = some req)
    (hfetch : fetchImpl req = fetched res) :
    ∃ err delay, Raised env s.cluster x err delay ∧
      Client.run authorityOf fetchImpl client call = .error (clientErrorOf x.id err delay) := by
  have hid : requestId (x.request.request x.id) = x.id :=
    requestId_of_normal (ids_normal hs x hx) _ _
  obtain ⟨err, delay, hraised, hfailure⟩ :=
    (((safe_of_reachable hs).1.progress x hx).versioned hpath hres).raised
      hid hpath hmethod hok hfresh
  refine ⟨err, delay, hraised, ?_⟩
  rw [← hfailure, ← hfetch]
  exact Client.run_failed fetchImpl hsent (hfetch ▸ hok) fun _ => hfetch ▸ hfresh

end

/-- The search of a client that the provider refuses. -/
theorem errors_come_through_refused : ∃ s x res err delay,
    run (deploymentStep .default sampleEnvironment true) (.initial 1 emptyServer) refusedUpstream =
      some s ∧ x ∈ s.exchanges ∧ x.responses = [res] ∧ res.status = 502 ∧
      Raised sampleEnvironment s.cluster x err delay ∧
      Client.run Client.sampleAuthority (fun _ => fetched res) Client.sampleClient
        Client.sampleCall = .error (clientErrorOf x.id err delay) := by
  have hruns : ((run (deploymentStep .default sampleEnvironment true) (.initial 1 emptyServer)
      refusedUpstream).map fun s => s.exchanges.map fun x =>
        (x.responses.map (·.status), usesStructuredErrors x.request.path,
          x.request.method == .head)) =
      some [([502], true, false), ([401], true, false)] := by
    decide +kernel
  obtain ⟨s, hrun, hexchanges⟩ := Option.map_eq_some_iff.mp hruns
  obtain ⟨x, xs, hxs, hx, -⟩ := List.map_eq_cons_iff.mp hexchanges
  obtain ⟨hstatuses, hx⟩ := Prod.mk.inj hx
  obtain ⟨hpath, hmethod⟩ := Prod.mk.inj hx
  obtain ⟨res, rest, hres, hstatus, hrest⟩ := List.map_eq_cons_iff.mp hstatuses
  obtain rfl := List.map_eq_nil_iff.mp hrest
  have hmem : x ∈ s.exchanges := hxs ▸ List.mem_cons_self
  have hok : (fetched res).ok = false := by
    have hdone : (fetched res).status = 502 := hstatus
    unfold Client.FetchResponse.ok
    rw [hdone]
    rfl
  have hnot304 : res.status ≠ 304 := by
    rw [hstatus]
    decide
  have hget : x.request.method ≠ .head := by simpa using hmethod
  have hmember : res ∈ x.responses := hres ▸ List.mem_cons_self
  obtain ⟨err, delay, hraised, hclient⟩ : ∃ err delay,
      Raised sampleEnvironment s.cluster x err delay ∧
      Client.run Client.sampleAuthority (fun _ => fetched res) Client.sampleClient
        Client.sampleCall = .error (clientErrorOf x.id err delay) :=
    errors_come_through ⟨_, hrun⟩ hmem hpath hget hmember hok hnot304 Client.sampleCall_sent rfl
  exact ⟨s, x, res, err, delay, hrun, hmem, hres, hstatus, hraised, hclient⟩

end NewsApi.App
