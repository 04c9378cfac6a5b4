import NewsApi.Async.Ends
import NewsApi.Http.RetryDelay
import NewsApi.Runtime.JobRules
import NewsApi.Services.Cancellation
import NewsApi.Services.Tasks

/-! # What searches fail with

The provider's client rejects with errors of its own class. Whatever else fails,
and whenever, a search is aborted or fails with one of five errors, whose
`Retry-After` is a number of seconds within a day. -/
namespace NewsApi.Services
open NewsApi.Async NewsApi.Text NewsApi.Types NewsApi.Config NewsApi.Errors NewsApi.Cache
open NewsApi.Runtime NewsApi.Providers NewsApi.Http

/-- Status and code. -/
def SEARCH_ERRORS : List (Nat × String) :=
  [(429, "upstream_rate_limited"), (502, "upstream_unavailable"), (502, "invalid_provider_payload"),
    (503, "upstream_unavailable"), (503, "upstream_circuit_open")]

structure IsSearchError (error : HttpError) : Prop where
  listed : (error.statusCode, error.code) ∈ SEARCH_ERRORS
  capped : ∀ value ∈ error.retryAfter, ∃ n ≤ MAX_RETRY_AFTER_SECONDS, value = decimal n

inductive SearchFailure : JsError → Prop
  | aborted : SearchFailure .requestAborted
  | http {error : HttpError} (h : IsSearchError error) : SearchFailure (.http error)

/-- What is thrown satisfies `E`. -/
def FailsWith {α : Type} (E : JsError → Prop) (r : Except JsError α) : Prop :=
  ∀ err, r = .error err → E err

/-- The provider's client rejects with its own errors. -/
def AxiosRejects (answer : (c : Command) → Option (Reply c)) : Prop :=
  ∀ params err, answer (.axiosGet params) = some (.error err) → ∃ error, err = .axios error

/-- So does a timer with an abort, and the circuit with its own error. -/
def Rejects : (c : Command) → Reply c → Prop
  | .axiosGet _, .error err => ∃ error, err = .axios error
  | .sleep _ _, .error err => err = .requestAborted
  | .assertCircuitAllowsRequest, .error err => SearchFailure err
  | _, _ => True

variable {settings : Settings} {platform : Platform} {leases honest : Bool}
  {options : ArticleSearchOptions} {cacheKey : JsString}

/-- A job that fails with what `E` lists. -/
def Fails {α : Type} (E : JsError → Prop) (x : Job α) : Prop :=
  AsyncM.Gives Rejects (fun _ => True) x (FailsWith E)

section
variable {α : Type} {E E' : JsError → Prop} {x : Job α}

theorem failsWith_ok (a : α) : FailsWith E (.ok a) := by
  intro err h
  cases h

theorem failsWith_error {err : JsError} (h : E err) : FailsWith (α := α) E (.error err) := by
  intro err' heq
  cases heq
  exact h

theorem Fails.mono (hx : Fails E x) (h : ∀ err, E err → E' err) : Fails E' x :=
  AsyncM.Gives.mono hx fun _ hr err heq => h err (hr err heq)

theorem Fails.pure (a : α) : Fails E (pure a : Job α) := AsyncM.Gives.pure (failsWith_ok a)

theorem Fails.throw {err : JsError} (h : E err) : Fails E (throw err : Job α) :=
  AsyncM.Gives.throw (failsWith_error h)

theorem Fails.ofExcept {r : Except JsError α} (h : FailsWith E r) : Fails E (AsyncM.ofExcept r) :=
  AsyncM.Gives.ofExcept h

theorem Fails.bind {β : Type} {f : α → Job β} (hx : Fails E x) (hf : ∀ a, Fails E (f a)) :
    Fails E (x >>= f) :=
  AsyncM.Gives.bind (AsyncM.Gives.mono hx fun
    | .ok a => fun _ => hf a
    | .error err => fun h => failsWith_error (h err rfl))

theorem Fails.ite {c : Prop} [Decidable c] {y : Job α} (hx : Fails E x) (hy : Fails E y) :
    Fails E (if c then x else y) :=
  AsyncM.Gives.ite hx hy

theorem Fails.ask (c : Command) : Fails E (ask c) :=
  AsyncM.Gives.lift (.command trivial fun _ _ => failsWith_ok _)

theorem Fails.map {β : Type} {f : α → β} (hx : Fails E x) : Fails E (f <$> x) :=
  AsyncM.Gives.map (AsyncM.Gives.mono hx fun
    | .ok _ => fun _ => failsWith_ok _
    | .error err => fun h => failsWith_error (h err rfl))

theorem Fails.attempt {β : Type} {f : Except JsError α → Job β} (hx : Fails E x)
    (hf : ∀ r, FailsWith E r → Fails E' (f r)) : Fails E' (AsyncM.attempt x >>= f) :=
  AsyncM.Gives.bind (AsyncM.Gives.attempt (AsyncM.Gives.mono hx hf))

theorem Fails.tryCatch {f : JsError → Job α} (hx : Fails E x)
    (hf : ∀ err, E err → Fails E' (f err)) : Fails E' (tryCatch x f) :=
  AsyncM.Gives.tryCatch (AsyncM.Gives.mono hx fun
    | .ok a => fun _ => failsWith_ok a
    | .error err => fun h => hf err (h err rfl))

theorem Fails.withFinally {fin : Job Unit} (hx : Fails E x) (hfin : Fails E fin) :
    Fails E (AsyncM.withFinally x fin) :=
  AsyncM.Gives.withFinally (AsyncM.Gives.mono hx fun _ hr => AsyncM.Gives.mono hfin fun
    | .ok _ => fun _ => hr
    | .error err => fun h => failsWith_error (h err rfl))

theorem Fails.withSpan (hx : Fails E x) : Fails E (withSpan x) := gives_withSpan trivial hx

theorem Fails.throwIfAborted {signal : Signal} (h : E .requestAborted) :
    Fails E (throwIfAborted signal) :=
  .bind (.ask _) fun _ => .ite (.throw h) (.pure _)

theorem Fails.loop {β : Type} {b : β} {body : β → Job (β ⊕ α)} (hbody : ∀ b, Fails E (body b)) :
    Fails E (AsyncM.loop b body) :=
  AsyncM.Gives.loop (fun _ => True) trivial fun b _ => AsyncM.Gives.mono (hbody b) fun
    | .ok (.inl _) => fun _ => trivial
    | .ok (.inr _) => fun _ => failsWith_ok _
    | .error err => fun h => failsWith_error (h err rfl)

end

/-! ## The cache -/

section
variable {E : JsError → Prop}

theorem fails_deleteCorruptCacheEntry (key : JsString) : Fails E (deleteCorruptCacheEntry key) :=
  .tryCatch (E := fun _ => True) (Prog.Gives.command trivial fun _ _ _ _ => trivial)
    fun _ _ => .pure _

/-- A lookup never fails. -/
theorem fails_readArticles (key : JsString) (cache : ArticleSearchCacheStatus) :
    Fails E (readArticles key cache) := by
  refine .withSpan (.attempt (E := fun _ => True)
    (Prog.Gives.command trivial fun _ _ _ _ => trivial) fun r _ => ?_)
  rcases r with err | _ | cached
  · exact .ite (.bind (fails_deleteCorruptCacheEntry key) fun _ => .pure _) (.pure _)
  · exact .pure _
  · simp only []
    split
    · exact .bind (fails_deleteCorruptCacheEntry key) fun _ => .pure _
    · exact .pure _

theorem fails_writeArticles (key : JsString) (articles : ArticleList) (ttlSec : Nat) :
    Fails E (writeArticles key articles ttlSec) :=
  .withSpan (.tryCatch (E := fun _ => True) (Prog.Gives.command trivial fun _ _ _ _ => trivial)
    fun _ _ => .pure _)

end

/-! ## The provider -/

theorem normalizeRetryAfter_capped {value : Option Json} {now : Int} {result : JsString}
    (h : normalizeRetryAfter platform value now = some result) :
    ∃ n ≤ MAX_RETRY_AFTER_SECONDS, result = decimal n := by
  rw [normalizeRetryAfter_eq, Option.map_eq_some_iff] at h
  obtain ⟨d, -, rfl⟩ := h
  exact ⟨cappedDelay d, cappedDelay_le d, rfl⟩

theorem mapAxiosError_known (now : Nat) (error : AxiosError) :
    SearchFailure (mapAxiosError platform now error) := by
  have hcapped : ∀ value ∈ error.response.bind fun response =>
      retryAfterFromHeaders platform response.2 now,
      ∃ n ≤ MAX_RETRY_AFTER_SECONDS, value = decimal n := by
    intro value hvalue
    obtain ⟨response, -, hvalue⟩ := Option.bind_eq_some_iff.mp hvalue
    exact normalizeRetryAfter_capped hvalue
  unfold mapAxiosError
  dsimp only
  split
  · exact .http ⟨by simp [SEARCH_ERRORS], hcapped⟩
  · split
    · exact .http ⟨by simp [SEARCH_ERRORS], hcapped⟩
    · exact .http ⟨by simp [SEARCH_ERRORS], by simp⟩

theorem circuitOpenError_known (circuit : CircuitState) (now : Nat) :
    SearchFailure (circuitOpenError settings circuit now) := by
  refine .http ⟨by simp [SEARCH_ERRORS], fun value hvalue => ?_⟩
  cases hvalue
  unfold circuitRetryAfter
  split
  · exact ⟨1, by decide, rfl⟩
  · exact ⟨_, Nat.min_le_right _ _, rfl⟩

theorem invalidPayloadError_known : SearchFailure invalidPayloadError :=
  .http ⟨by simp [SEARCH_ERRORS], by simp⟩

/-- What the upstream work throws before it is mapped. -/
def UpstreamFailure (err : JsError) : Prop := SearchFailure err ∨ ∃ error, err = .axios error

theorem normalizeArticles_known (data : Json) :
    FailsWith UpstreamFailure (normalizeArticles data) := by
  intro err herr
  have hinvalid : err = invalidPayloadError := by
    unfold normalizeArticles at herr
    split at herr
    · exact (Except.error.inj herr).symm
    · split at herr
      · exact (Except.error.inj herr).symm
      · split at herr <;> cases herr
        rfl
  exact hinvalid ▸ .inl invalidPayloadError_known

theorem fails_requestArticles : Fails UpstreamFailure (requestArticles settings options) := by
  have hget : Fails UpstreamFailure (axiosGet settings options) := by
    refine Prog.Gives.command trivial fun r hr err heq => .inr ?_
    subst heq
    exact hr
  have hretried : Fails UpstreamFailure
      (withUpstreamRetries settings (axiosGet settings options) .request) := by
    refine gives_withUpstreamRetries trivial trivial (fun _ => trivial) trivial
      (failsWith_error (.inl .aborted)) (fun delayMs err hslept => ?_) hget
    obtain rfl : err = .requestAborted := hslept
    exact failsWith_error (.inl .aborted)
  exact .bind hretried fun data => .bind (.throwIfAborted (.inl .aborted)) fun _ =>
    .bind (.ofExcept (normalizeArticles_known data)) fun _ => .bind (.ask _) fun _ => .pure _

/-- Every failure of the upstream work is mapped. -/
theorem fails_settleFailure (circuitState : CircuitRequestState) {err : JsError}
    (h : UpstreamFailure err) : Fails SearchFailure (settleFailure platform circuitState err) := by
  refine .bind (.ask _) fun _ => .bind (.ask _) fun _ => .bind (.ask _) fun _ => ?_
  refine .ite (.bind (.ask _) fun _ => .bind (.ask _) fun _ => .throw (mapAxiosError_known _ _)) ?_
  refine .bind (.ask _) fun _ => .ite (.bind (.ask _) fun _ => .throw .aborted) ?_
  rcases h with (_ | hlisted) | ⟨error, rfl⟩
  · exact .ite (.bind (.ask _) fun _ => .throw .aborted)
      (.ite (.bind (.ask _) fun _ => .throw .aborted) (.throw .aborted))
  · exact .ite (.bind (.ask _) fun _ => .throw (.http hlisted))
      (.ite (.bind (.ask _) fun _ => .throw (.http hlisted)) (.throw (.http hlisted)))
  · have hmapped : Fails SearchFailure (do
        throw (mapAxiosError platform (← ask .dateNow) error) : Job ArticleList) :=
      .bind (.ask _) fun _ => .throw (mapAxiosError_known _ _)
    exact .ite (.bind (.ask _) fun _ => hmapped) (.ite (.bind (.ask _) fun _ => hmapped) hmapped)

theorem fails_search : Fails SearchFailure (search settings platform options) := by
  refine .bind (.ask _) fun _ => .withFinally ?_ (.ask _)
  have hcircuit : Fails SearchFailure (do
      AsyncM.ofExcept (← ask .assertCircuitAllowsRequest) : Job CircuitRequestState) := by
    refine gives_ask trivial fun result hresult => ?_
    refine AsyncM.Gives.ofExcept fun err herr => ?_
    subst herr
    exact hresult
  exact .bind (.throwIfAborted .aborted) fun _ => .bind (.withSpan hcircuit) fun circuitState =>
    .withSpan (.tryCatch fails_requestArticles fun _ => fails_settleFailure circuitState)

theorem fails_searchProvider : Fails SearchFailure (searchProvider settings platform options) :=
  .attempt fails_search fun _ hresult => .bind (.ask _) fun _ =>
    .bind (.ofExcept hresult) fun _ => .bind (.throwIfAborted .aborted) fun _ => .pure _

theorem fails_loadArticlesFromUpstream :
    Fails SearchFailure (loadArticlesFromUpstream settings platform options cacheKey) := by
  refine .attempt fails_searchProvider fun result hresult => ?_
  cases result with
  | error err =>
    refine .bind (.ask _) fun _ => .ite (.throw .aborted) (.withSpan ?_)
    refine .bind (fails_readArticles _ _) fun stale => ?_
    cases stale with
    | some result => exact .pure _
    | none => exact .throw (hresult err rfl)
  | ok articles =>
    exact .bind (.bind (fails_writeArticles _ _ _) fun _ => fails_writeArticles _ _ _)
      fun _ => .pure _

/-! ## The coordination -/

section
variable {T : Type} {readFresh : Job (Option T)} {load : Job T}
  (hread : Fails SearchFailure readFresh) (hload : Fails SearchFailure load)

theorem fails_coordinatorAborted :
    Fails SearchFailure (Cache.throwIfAborted (coordinatorRuntime leases)) :=
  .bind (.ask (.aborted .client)) fun _ => .ite (.throw .aborted) (.pure _)

/-- Whatever the command fails with. -/
theorem fails_attemptUnlessAborted {α : Type} {x : Job α} (hx : Fails (fun _ => True) x) :
    Fails SearchFailure (attemptUnlessAborted (coordinatorRuntime leases) x) := by
  have hlast : Fails SearchFailure (do
      Cache.throwIfAborted (coordinatorRuntime leases)
      pure none : Job (Option α)) := .bind fails_coordinatorAborted fun _ => .pure _
  exact .tryCatch (.bind hx fun _ => .bind (fails_coordinatorAborted.mono fun _ _ => trivial)
    fun _ => .pure _) fun _ _ => hlast

include hload in
theorem fails_loadWithoutCoordination (source : Source) :
    Fails SearchFailure (loadWithoutCoordination load source) :=
  .bind hload fun _ => .pure _

include hread hload

theorem fails_loadUnderLease (key owner : JsString) (ttlMs : Nat) :
    Fails SearchFailure
      (loadUnderLease (coordinatorRuntime leases) leaseStore key owner ttlMs readFresh load) := by
  have hrelease : Fails SearchFailure (releaseLease leaseStore key owner) :=
    .tryCatch (E := fun _ => True) (Prog.Gives.command trivial fun _ _ _ _ => trivial)
      fun _ _ => .pure _
  refine .withFinally (.bind (.map (fails_attemptUnlessAborted
    (hread.mono fun _ _ => trivial))) fun cached => ?_) hrelease
  cases cached with
  | some cached => exact .pure _
  | none =>
    exact .bind (.ask (.startHeartbeat _ _ _)) fun _ =>
      .withFinally (fails_loadWithoutCoordination hload .upstream) (.ask .stopHeartbeat)

theorem fails_coordinateCacheMiss : Fails SearchFailure
    (coordinateCacheMiss (coordinatorRuntime leases) settings platform cacheKey readFresh load) := by
  refine .bind fails_coordinatorAborted fun _ => ?_
  cases leases with
  | false => exact fails_loadWithoutCoordination hload _
  | true =>
    refine .bind (.ask .randomUUID) fun owner => .bind (.ask .dateNow) fun startedAt =>
      .loop fun _ => .bind fails_coordinatorAborted fun _ => ?_
    refine .bind (fails_attemptUnlessAborted
      (Prog.Gives.command trivial fun _ _ _ _ => trivial)) fun acquired => ?_
    rcases acquired with _ | _ | _
    · exact .map (fails_loadWithoutCoordination hload _)
    · refine .bind (fails_attemptUnlessAborted (hread.mono fun _ _ => trivial)) fun polled => ?_
      rcases polled with _ | _ | cached
      · exact .map (fails_loadWithoutCoordination hload _)
      · refine .bind (.ask .dateNow) fun now => .ite
          (.map (fails_loadWithoutCoordination hload _)) ?_
        refine .bind (.ask .random) fun random => .bind (.bind fails_coordinatorAborted fun _ => ?_)
          fun _ => .pure _
        refine Prog.Gives.command trivial fun r hslept err herr => ?_
        subst herr
        obtain rfl : err = .requestAborted := hslept
        exact .aborted
      · exact .pure _
    · exact .map (fails_loadUnderLease hread hload _ _ _)

end

theorem fails_fetchArticlesFromUpstream : Fails SearchFailure
    (fetchArticlesFromUpstream settings platform leases options cacheKey) :=
  .bind (fails_coordinateCacheMiss (fails_readArticles _ _) fails_loadArticlesFromUpstream)
    fun _ => .ite (.pure _) (.pure _)

/-! ## Runs -/

section
variable {v v' : View} {answer : (c : Command) → Option (Reply c)}

theorem rejects_now {c : Command} {r : Reply c} (h : now settings c v = some (r, v')) :
    Rejects c r := by
  cases c with
  | assertCircuitAllowsRequest =>
    simp only [now, Option.some.injEq, Prod.mk.injEq] at h
    obtain ⟨hresult, -⟩ := h
    cases r with
    | ok state => trivial
    | error err =>
      have hrefused : assertCircuitAllowsRequest settings v.sh.clock v.sh.circuit =
          (.error err, (assertCircuitAllowsRequest settings v.sh.clock v.sh.circuit).2) :=
        Prod.ext hresult rfl
      obtain ⟨-, rfl⟩ := assert_error hrefused
      exact circuitOpenError_known _ _
  | axiosGet | sleep => cases h
  | _ => trivial

/-- What the circuit answers is never waited for. -/
theorem rejects_reply {c : Command} {r : Reply c} (hgood : AxiosRejects answer)
    (hwaits : ∃ v, now settings c v = none) (ha : answer c = some r)
    (hr : reply honest c r v = some v') : Rejects c r := by
  cases c with
  | assertCircuitAllowsRequest =>
    obtain ⟨v, hv⟩ := hwaits
    cases hv
  | axiosGet params =>
    cases r with
    | ok data => trivial
    | error err => exact hgood params err ha
  | sleep delayMs signal =>
    cases r with
    | ok value => trivial
    | error err => cases err <;> first | rfl | cases hr
  | _ => trivial

variable (settings honest) in
/-- A task whose failures are known. -/
structure FailsKnown {α : Type} (p : Prog Command Reply (Except JsError α)) : Prop where
  gives : p.Gives Rejects (fun _ => True) (FailsWith SearchFailure)
  suspended : p.Suspended (jobHost settings honest)

theorem FailsKnown.start {α : Type} {x : Job α} (hx : Fails SearchFailure x) (v : View) :
    FailsKnown settings honest ((jobHost settings honest).advance x.run v).1 where
  gives := (Prog.Gives.advance (h := jobHost settings honest) (P := fun _ => True)
    (fun _ _ _ _ _ _ hn => ⟨rejects_now hn, trivial⟩) (fun _ _ _ _ => trivial) hx trivial).1
  suspended := Prog.suspended_advance _ v

theorem FailsKnown.resume {α : Type} {p p' : Prog Command Reply (Except JsError α)}
    (hp : FailsKnown settings honest p) (hgood : AxiosRejects answer)
    (hr : (jobHost settings honest).resume answer p v = some (p', v')) :
    FailsKnown settings honest p' where
  gives := by
    refine (Prog.Gives.resume (h := jobHost settings honest) (P := fun _ => True)
      (fun _ _ _ _ _ _ hn => ⟨rejects_now hn, trivial⟩) (fun _ _ _ _ => trivial)
      (fun c r s1 _ hpending ha hreply => ?_) (fun _ _ _ _ _ _ => trivial) hp.gives trivial hr).1
    obtain ⟨k, rfl⟩ := Prog.pending_eq_some hpending
    exact rejects_reply hgood hp.suspended ha hreply
  suspended := Prog.suspended_resume hr

end

variable (settings platform leases honest) in
theorem failure_rules : TaskRules settings platform leases honest AxiosRejects
    (FailsKnown settings honest) (FailsKnown settings honest) (FailsWith SearchFailure) where
  gone := ⟨failsWith_error .aborted, trivial⟩
  reads cacheKey := by
    have hread : Fails SearchFailure (readCachedArticles cacheKey) := fails_readArticles _ _
    exact ⟨hread, ⟨.initial, .start 0 (fun _ => 0) []⟩, rfl⟩
  looks _ _ _ _ _ hgood hp hr := hp.resume hgood hr
  starts _ v := .start fails_fetchArticlesFromUpstream v
  works _ _ _ _ _ hgood hp hr := hp.resume hgood hr
  aborted := failsWith_error .aborted
  failed _ hp := failsWith_error (hp.gives _ rfl)
  found _ _ := failsWith_ok _
  told r existing hp := by
    cases r with
    | ok result => exact failsWith_ok _
    | error err => exact failsWith_error (hp.gives err rfl)

variable (settings honest) in
/-- What is known of a process whose provider's client rejects with its own errors. -/
def FailuresKnown (s : Process) : Prop :=
  Tasks (FailsKnown settings honest) (FailsKnown settings honest) (FailsWith SearchFailure) s

section
variable {s s' : Process}

theorem FailuresKnown.initial : FailuresKnown settings honest .initial := Tasks.initial

theorem FailuresKnown.next {ev : Event} (h : FailuresKnown settings honest s)
    (hev : ev.AnsweredBy AxiosRejects)
    (hs : step settings platform leases honest s ev = some s') : FailuresKnown settings honest s' :=
  tasks_step (failure_rules settings platform leases honest) h hev hs

theorem FailuresKnown.failure (h : FailuresKnown settings honest s) {c : Call} (hc : c ∈ s.calls)
    {err : JsError} (hout : c.outcome = some (.error err)) : SearchFailure err :=
  (h.calls c hc).outcome _ hout err rfl

end

theorem emptyStore_rejects : AxiosRejects emptyStore := by
  rintro params err ⟨⟩

theorem failingProvider_rejects : AxiosRejects failingProvider := by
  rintro params err ⟨⟩
  exact ⟨_, rfl⟩

/-- **Only known errors.** In a run in which the provider's client rejects with its
own errors, whatever else fails, a search is aborted or fails with one of five. -/
theorem search_failures {s : Process} {es : List Event}
    (hes : ∀ ev ∈ es, ev.AnsweredBy AxiosRejects)
    (hrun : run (step settings platform leases honest) .initial es = some s) :
    ∀ c ∈ s.calls, ∀ err, c.outcome = some (.error err) → SearchFailure err := by
  have hknown : FailuresKnown settings honest s := by
    refine run_invariant_where (Q := fun _ ev => ev.AnsweredBy AxiosRejects)
      (fun _ _ _ h hev hs => h.next hev hs) .initial
      (fun before ev after t heq _ => hes ev ?_) hrun
    rw [heq]
    exact List.mem_append_right before List.mem_cons_self
  exact fun c hc err hout => hknown.failure hc hout

/-- The provider answers 400, which is not retried: the second call is told so. -/
theorem search_failures_refused :
    ∃ s c err, run (step .default .plain false true) .initial othersLeave = some s ∧
      c ∈ s.calls ∧ c.outcome = some (.error err) ∧ SearchFailure err := by
  have hrun : (run (step .default .plain false true) .initial othersLeave).map (fun s =>
      (s.calls[1]?).map Call.outcome) =
      some (some (some (.error (mapAxiosError .plain 0 ⟨none, some (400, [])⟩)))) := rfl
  have hes : ∀ ev ∈ othersLeave, ev.AnsweredBy AxiosRejects := by
    simp [othersLeave, oneLeaves, sampleCall, Event.AnsweredBy, emptyStore_rejects,
      failingProvider_rejects]
  obtain ⟨s, hs, hcall⟩ := Option.map_eq_some_iff.mp hrun
  obtain ⟨c, hc, hout⟩ := Option.map_eq_some_iff.mp hcall
  have hmem : c ∈ s.calls := List.mem_of_getElem? hc
  exact ⟨s, c, _, hs, hmem, hout, search_failures hes hs c hmem _ hout⟩

end NewsApi.Services
