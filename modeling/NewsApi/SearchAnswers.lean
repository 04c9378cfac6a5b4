import NewsApi.DeploymentEnds
import NewsApi.Services.KnownErrors

/-! # How searches are answered

Where the providers' clients reject with their own errors, an exchange that got as
far as a search ends in one of a few ways: with what its controller makes of the
articles, or with the status, the code and the delay of the search's error. Only
an aborted search is not answered. -/
namespace NewsApi.App
open NewsApi.Async NewsApi.Text NewsApi.Types NewsApi.Config NewsApi.Errors NewsApi.Http
open NewsApi.Controllers NewsApi.Services NewsApi.Collections NewsApi.Cache NewsApi.ErrorHandling

/-! ## The response to an error -/

/-- `res.status(error.statusCode).json(...)` -/
def httpErrorResponse (req : HttpRequest) (id : JsString) (error : HttpError) : Response where
  status := error.statusCode
  headers := (error.retryAfter.map fun value => ("Retry-After", value)).toList
  body := stringify (errorBody (req.request id) req.path (some (js error.code))
    (some (js error.message)))

/-- An error that the handler sends as it is. -/
structure IsPlain (error : HttpError) : Prop where
  status : 400 ≤ error.statusCode ∧ error.statusCode < 600
  code : js error.code ≠ js "ABORT_ERR" ∧ js error.code ≠ js "ERR_CANCELED"
  printable : ∀ value ∈ error.retryAfter, value.all isHeaderChar = true

theorem isHeaderChar_digit {c : CodeUnit} (h : isDigit c = true) : isHeaderChar c = true := by
  simp only [isDigit, Bool.and_eq_true, decide_eq_true_eq, UInt16.le_iff_toNat_le] at h
  simp only [isHeaderChar, Bool.or_eq_true, Bool.and_eq_true, decide_eq_true_eq,
    UInt16.le_iff_toNat_le]
  have hlow : (48 : Nat) ≤ c.toNat := h.1
  have hhigh : c.toNat ≤ 57 := h.2
  exact .inl (.inr ⟨show 32 ≤ c.toNat by omega, show c.toNat ≤ 126 by omega⟩)

theorem searchError_plain {error : HttpError} (h : IsSearchError error) : IsPlain error := by
  have hlisted := h.listed
  simp only [SEARCH_ERRORS, List.mem_cons, Prod.mk.injEq, List.not_mem_nil, or_false] at hlisted
  refine ⟨by omega, ?_, fun value hvalue => ?_⟩
  · rcases hlisted with ⟨-, hcode⟩ | ⟨-, hcode⟩ | ⟨-, hcode⟩ | ⟨-, hcode⟩ | ⟨-, hcode⟩ <;>
      rw [hcode] <;> decide +kernel
  · obtain ⟨n, -, rfl⟩ := h.capped value hvalue
    exact List.all_eq_true.mpr fun c hc => isHeaderChar_digit (decimal_digits hc)

section
variable {req : HttpRequest} {id : JsString} {error : HttpError}

theorem isHttpError_plain (h : IsPlain error) : isHttpError (thrownOf (.http error)) =
    some ⟨.finite error.statusCode, js error.code, js error.message, error.retryAfter⟩ := by
  refine if_pos ?_
  simp only [isErrorStatus, Bool.and_eq_true, decide_eq_true_eq]
  exact ⟨by exact_mod_cast h.status.1, by exact_mod_cast h.status.2⟩

theorem errorResponse_plain (h : IsPlain error) :
    errorResponse req id [] (thrownOf (.http error)) = some (httpErrorResponse req id error) := by
  have hkind := isHttpError_plain h
  have habort : ErrorHandling.isRequestAbortedError (thrownOf (.http error)) = false := by
    have hname : (js "HttpError" == js "AbortError") = false := by decide +kernel
    simp [thrownOf, ErrorHandling.isRequestAbortedError, ErrorObject.isAborted, ErrorObject.name,
      ErrorObject.code, hname, h.code.1, h.code.2]
  have hanswerable : IsAnswerable (thrownOf (.http error)) := by
    unfold IsAnswerable
    rw [hkind]
    exact h.printable
  have hreply : reply (thrownOf (.http error)) = ⟨status error.statusCode, some (js error.code),
      some (js error.message), error.retryAfter⟩ := by
    unfold reply
    rw [hkind]
    rfl
  have hstatus : toInt32 (status error.statusCode) = error.statusCode :=
    toInt32_status _ (by have := h.status; omega)
  rw [errorResponse_sent habort hanswerable, sentFor, retryHeader, hreply]
  simp only [hstatus]
  rfl

end

/-! ## What is sent once a search has settled -/

theorem articleNotFound_plain : IsPlain articleNotFound :=
  ⟨by decide, by decide +kernel, fun _ => nofun⟩

theorem sendJson_status (framework : Framework) (req : Request) (n : Nat) (body : JsonValue) :
    (sendJson framework req n body).status = n ∨ (sendJson framework req n body).status = 304 := by
  unfold sendJson
  dsimp only
  split
  · exact .inr rfl
  · exact .inl rfl

theorem sendEnvelope_cases {sha256 : List UInt8 → Digest} {fresh : Request → JsString → Bool}
    {req : Request} {data : JsonValue} {members : Meta} {res : Response}
    (h : sendEnvelope sha256 fresh req data members = .ok res) :
    res.status = 304 ∨ res.status = 200 ∧
      res.body = stringify (envelope data (envelopeMeta req members)) := by
  simp only [sendEnvelope] at h
  cases htag : createWeakEntityTag sha256
    (envelope data ((envelopeMeta req members).filter isStable)) with
  | error err =>
    rw [htag] at h
    cases h
  | ok entityTag =>
    rw [htag] at h
    simp only [bind, Except.bind] at h
    split at h <;> cases h
    · exact .inl rfl
    · exact .inr ⟨rfl, rfl⟩

/-- What a controller does with the articles of its search. -/
inductive Delivers (handler : Routes.Handler) (settled : Except JsError Response) : Prop
  | sent {res : Response} (hsettled : settled = .ok res)
    (hstatus : res.status = 200 ∨ res.status = 304 ∨
      res.status = 404 ∧ isLegacy handler = true)
  | missing (hsettled : settled = .error (.http articleNotFound))

theorem delivers_json {handler : Routes.Handler} {framework : Framework} (req : Request) (n : Nat)
    (body : JsonValue) (hn : n = 200 ∨ n = 404 ∧ isLegacy handler = true) :
    Delivers handler (.ok (sendJson framework req n body)) := by
  refine .sent rfl ?_
  rcases sendJson_status framework req n body with hstatus | hstatus
  · rw [hstatus]
    exact hn.imp_right .inr
  · exact .inr (.inl hstatus)

theorem delivers_envelope {handler : Routes.Handler} {sha256 : List UInt8 → Digest}
    {fresh : Request → JsString → Bool} (req : Request) (data : JsonValue) (members : Meta) :
    Delivers handler (sendEnvelope sha256 fresh req data members) := by
  obtain ⟨text, res, -, -, hres, -, -⟩ := @sendEnvelope_ok sha256 fresh req data members
  refine .sent hres ?_
  rcases sendEnvelope_cases hres with hstatus | ⟨hstatus, -⟩
  · exact .inr (.inl hstatus)
  · exact .inl hstatus

/-- One case for each controller. -/
theorem controller_delivers {framework : Framework} {platform : Platform} {req : Request}
    {params : Routes.Params} {query : Utils.Query} {handler : Routes.Handler} {pending : Pending}
    (h : controller framework platform req params query handler = some (.ok pending))
    (result : ArticleSearchResult) : Delivers handler (pending.settled result) := by
  cases handler with
  | searchArticlesV1 =>
    obtain ⟨options, -, h⟩ := bind_eq_ok (Option.some.inj h)
    cases h
    exact delivers_envelope _ _ _
  | getArticlesByTitleV1 =>
    obtain ⟨title, -, h⟩ := bind_eq_ok (Option.some.inj h)
    cases h
    dsimp only
    cases findByTitle title result.articles with
    | some article => exact delivers_envelope _ _ _
    | none => exact .missing rfl
  | getArticlesBySourceV1 =>
    obtain ⟨source, -, h⟩ := bind_eq_ok (Option.some.inj h)
    obtain ⟨options, -, h⟩ := bind_eq_ok h
    cases h
    exact delivers_envelope _ _ _
  | getArticles =>
    obtain ⟨options, -, h⟩ := bind_eq_ok (Option.some.inj h)
    cases h
    exact delivers_json _ _ _ (.inl rfl)
  | getArticlesByTitle =>
    obtain ⟨title, -, h⟩ := bind_eq_ok (Option.some.inj h)
    cases h
    dsimp only
    cases findByTitle title result.articles with
    | some article => exact delivers_json _ _ _ (.inl rfl)
    | none => exact delivers_json _ _ _ (.inr ⟨rfl, rfl⟩)
  | getArticlesBySource =>
    obtain ⟨source, -, h⟩ := bind_eq_ok (Option.some.inj h)
    obtain ⟨options, -, h⟩ := bind_eq_ok h
    cases h
    exact delivers_json _ _ _ (.inl rfl)
  | _ => cases h

/-! ## Runs in which the providers' clients reject with their own errors -/

/-- The answers of an event are `good`. -/
def DeploymentEvent.AnsweredBy (good : ((c : Runtime.Command) → Option (Runtime.Reply c)) → Prop) :
    DeploymentEvent → Prop
  | .work (.replica _ event _) => event.AnsweredBy good
  | _ => True

variable {settings : Settings} {env : Environment} {honest : Bool}
variable {s s' : Deployment} {x : Exchange} {ev : DeploymentEvent}

/-- The server's answers are none of the provider's errors. -/
theorem answered_rejects (c : Cluster) (delivery : Delivery) {event : Event}
    (h : event.AnsweredBy AxiosRejects) : (c.answered delivery event).AnsweredBy AxiosRejects := by
  have hanswer : ∀ {answer}, AxiosRejects answer → AxiosRejects (c.answer delivery answer) := by
    intro answer hgood params err herr
    obtain ⟨r, hr, herr⟩ := Option.map_eq_some_iff.mp herr
    cases r with
    | ok data => cases herr
    | error error =>
      cases herr
      exact hgood params _ hr
  cases event with
  | callReply i answer => exact hanswer h
  | jobReply n answer => exact hanswer h
  | _ => trivial

theorem inCluster_rejects (h : ev.AnsweredBy AxiosRejects) {r : Nat} {event : Event}
    {delivery : Delivery}
    (hev : inCluster settings env honest s ev = some (.replica r event delivery)) :
    event.AnsweredBy AxiosRejects := by
  cases ev with
  | arrive server request uuid => cases hev
  | serve k guards randoms uuid =>
    obtain ⟨y, -, hev⟩ := Option.bind_eq_some_iff.mp hev
    split at hev <;> cases hev
    trivial
  | work event =>
    cases hev
    exact h
  | settle k => cases hev
  | close k =>
    obtain ⟨y, -, hev⟩ := Option.bind_eq_some_iff.mp hev
    obtain ⟨asked, -, hev⟩ := Option.bind_eq_some_iff.mp hev
    dsimp only at hev
    split at hev <;> cases hev
    trivial

variable (settings honest) in
def Contained (s : Deployment) : Prop :=
  ∀ p ∈ s.cluster.replicas, FailuresKnown settings honest p

theorem Contained.initial (replicas : Nat) (db : Lease.Db) :
    Contained settings honest (.initial replicas db) := by
  intro p hp
  obtain rfl := List.eq_of_mem_replicate hp
  exact .initial

theorem Contained.next (h : Contained settings honest s) (hev : ev.AnsweredBy AxiosRejects)
    (hs : deploymentStep settings env honest s ev = some s') : Contained settings honest s' := by
  have hmoment := inCluster_moment hs
  cases hin : inCluster settings env honest s ev with
  | none =>
    rw [hin] at hmoment
    intro p hp
    rw [show s'.cluster = s.cluster from hmoment] at hp
    exact h p hp
  | some event =>
    rw [hin] at hmoment
    rcases clusterStep_replicas hmoment with
      ⟨r, event, delivery, p, p', rfl, hp, hstep, hset⟩ | ⟨-, hsame⟩
    · intro q hq
      rw [hset] at hq
      rcases List.mem_or_eq_of_mem_set hq with hq | rfl
      · exact h q hq
      · exact (h p (List.mem_of_getElem? hp)).next
          (answered_rejects _ _ (inCluster_rejects hev hin)) hstep
    · intro p hp
      exact h p (hsame ▸ hp)

/-- How an exchange has ended whose search settled with `outcome`. -/
inductive Concluded (x : Exchange) (pending : Pending) : Except JsError ArticleSearchResult → Prop
  | sent {result : ArticleSearchResult} {res : Response} (hsettled : pending.settled result = .ok res)
    (hstatus : res.status = 200 ∨ res.status = 304 ∨ res.status = 404)
    (hres : x.responses = [x.sends res]) : Concluded x pending (.ok result)
  | missing {result : ArticleSearchResult}
    (hsettled : pending.settled result = .error (.http articleNotFound))
    (hres : x.responses = [x.sends (httpErrorResponse x.request x.id articleNotFound)]) :
    Concluded x pending (.ok result)
  | failed {error : HttpError} (hknown : IsSearchError error)
    (hres : x.responses = [x.sends (httpErrorResponse x.request x.id error)]) :
    Concluded x pending (.error (.http error))
  | aborted (hres : x.responses = []) : Concluded x pending (.error .requestAborted)

theorem concluded {pending : Pending} {outcome : Except JsError ArticleSearchResult}
    {handler : Routes.Handler} (hdelivers : ∀ result, Delivers handler (pending.settled result))
    (hfailed : ∀ err, outcome = .error err → SearchFailure err)
    (hres : x.responses =
      ((settledResponse x.request x.id pending outcome).map x.sends).toList) :
    Concluded x pending outcome := by
  cases outcome with
  | ok result =>
    cases hdelivers result with
    | sent hsettled hstatus =>
      refine .sent hsettled (hstatus.imp_right (·.imp_right And.left)) (hres.trans ?_)
      simp only [settledResponse, Except.bind, hsettled]
      rfl
    | missing hsettled =>
      refine .missing hsettled (hres.trans ?_)
      simp only [settledResponse, Except.bind, hsettled,
        errorResponse_plain articleNotFound_plain]
      rfl
  | error err =>
    cases hfailed err rfl with
    | aborted => exact .aborted hres
    | http hknown =>
      refine .failed hknown (hres.trans ?_)
      simp only [settledResponse, Except.bind, errorResponse_plain (searchError_plain hknown)]
      rfl

/-- **How searches are answered.** In a run of a deployment in which the providers'
clients reject with their own errors, an exchange whose search has settled, and
that is over, has one response: what its controller made of the articles, or the
status, the code and the delay of one of the five errors. If it has none, the
search was aborted. -/
theorem searches_answered {replicas : Nat} {db : Lease.Db} {es : List DeploymentEvent}
    (hes : ∀ ev ∈ es, ev.AnsweredBy AxiosRejects)
    (hrun : run (deploymentStep settings env honest) (.initial replicas db) es = some s) :
    ∀ x ∈ s.exchanges, x.ended = true → ∀ i pending, x.asked = some (i, pending) →
      ∃ call outcome, OwnCall s.cluster x i pending call ∧ call.outcome = some outcome ∧
        Concluded x pending outcome := by
  have hcontained : Contained settings honest s := by
    refine run_invariant_where (Q := fun _ ev => ev.AnsweredBy AxiosRejects)
      (fun _ _ _ h hev hs => h.next hev hs) (.initial replicas db)
      (fun before ev after t heq _ => hes ev ?_) hrun
    rw [heq]
    exact List.mem_append_right before List.mem_cons_self
  have hsafe : Safe env s := (safe_of_reachable ⟨es, hrun⟩).1
  intro x hx hended i pending hasked
  cases hsafe.progress x hx with
  | guarded _ hnone => cases hnone.symm.trans hasked
  | answered _ hnone => cases hnone.symm.trans hasked
  | searching _ _ _ hopen => cases hopen.symm.trans hended
  | @settled guards i' pending' call outcome _ hhandled hown hout _ hres =>
    cases hown.asked.symm.trans hasked
    obtain ⟨-, -, handler, params, -, -, -, hcontroller⟩ := (handle_asked hhandled).routed
    refine ⟨call, outcome, hown, hout,
      concluded (controller_delivers hcontroller) (fun err herr => ?_) hres⟩
    obtain ⟨p, hp, hcall⟩ := Cluster.mem_calls (List.mem_of_getElem? hown.stands)
    exact (hcontained p hp).failure hcall (herr ▸ hout)

/-- A request whose search the provider refuses, and one without a key. -/
def refusedUpstream : List DeploymentEvent :=
  let looked : ClusterEvent := .replica 0 (.callReply 0 emptyStore) (emptyResponse 0)
  let worked : ClusterEvent := .replica 0 (.jobReply 0 failingProvider) (emptyResponse 0)
  [.arrive 0 (sampleRequest (some (.str (js "key")))) sampleUuid,
    .arrive 0 (sampleRequest none) sampleUuid,
    .serve 0 sampleGuards (fun _ => 0) (js "a"), .serve 1 sampleGuards (fun _ => 0) (js "b")] ++
  (exchange (.sendLookup 0 0) 0 looked ++ [looked] ++ List.replicate 8 worked ++
    exchange (.sendWork 0 0) 1 worked ++ List.replicate 3 worked ++
    [ClusterEvent.replica 0 (.markSettled 0) noDelivery, .replica 0 (.deliver 0) noDelivery]).map .work ++
  [.settle 0]

theorem refusedUpstream_rejects : ∀ ev ∈ refusedUpstream, ev.AnsweredBy AxiosRejects := by
  simp [refusedUpstream, exchange, DeploymentEvent.AnsweredBy, Event.AnsweredBy,
    emptyStore_rejects, failingProvider_rejects]

theorem searches_answered_refused : ∃ s x i pending call outcome,
    run (deploymentStep .default sampleEnvironment true) (.initial 1 emptyServer) refusedUpstream =
      some s ∧ statuses s = [[502], [401]] ∧ s.exchanges[0]? = some x ∧
      OwnCall s.cluster x i pending call ∧ call.outcome = some outcome ∧
      Concluded x pending outcome := by
  have hruns : ((run (deploymentStep .default sampleEnvironment true) (.initial 1 emptyServer)
      refusedUpstream).map fun s => (statuses s, s.exchanges.map fun x =>
        (x.ended, x.asked.isSome))) = some ([[502], [401]], [(true, true), (true, false)]) := by
    decide +kernel
  obtain ⟨s, hrun, h⟩ := Option.map_eq_some_iff.mp hruns
  obtain ⟨hstatuses, hexchanges⟩ := Prod.mk.inj h
  obtain ⟨x, xs, hxs, hx, -⟩ := List.map_eq_cons_iff.mp hexchanges
  obtain ⟨hended, hasked⟩ := Prod.mk.inj hx
  obtain ⟨⟨i, pending⟩, hasked⟩ := Option.isSome_iff_exists.mp hasked
  obtain ⟨call, outcome, hown, hout, hconcluded⟩ := searches_answered refusedUpstream_rejects hrun
    x (by rw [hxs]; exact List.mem_cons_self) hended i pending hasked
  exact ⟨s, x, i, pending, call, outcome, hrun, hstatuses, by rw [hxs]; rfl, hown, hout, hconcluded⟩

end NewsApi.App
