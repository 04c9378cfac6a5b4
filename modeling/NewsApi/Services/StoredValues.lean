import NewsApi.Http.ParsedJson
import NewsApi.Runtime.JobRules
import NewsApi.Services.Landed

/-! # What a search stores

A provider's answer is a JSON text. Every value that a search writes is then one
that was parsed, its keys are those of its two entries, and its lease has the key
of a lease. -/
namespace NewsApi.Services
open NewsApi.Async NewsApi.Text NewsApi.Types NewsApi.Config NewsApi.Errors NewsApi.Cache
open NewsApi.Runtime NewsApi.Providers NewsApi.Http

/-- `transformResponse`: a body that is no JSON stays a string. -/
def responseData (body : JsString) : Json :=
  match JsonText.parseJson body with
  | some data => valueOf data
  | none => .str body

theorem responseData_parsed (body : JsString) : IsParsed (responseData body) := by
  unfold responseData
  split
  · rename_i data hdata
    exact parseJson_parsed hdata
  · trivial

/-- The provider answers with parsed data. -/
def ProviderParsed : (c : Command) → Reply c → Prop
  | .axiosGet _, .ok data => IsParsed data
  | _, _ => True

/-- The two entries of a key. -/
def IsEntry (cacheKey key : JsString) : Prop := key = cacheKey ∨ key = staleCacheKey cacheKey

/-- The commands of a search: its two entries, and its lease. -/
def Asks (platform : Platform) (cacheKey : JsString) : Command → Prop
  | .storeSet key value _ => IsEntry cacheKey key ∧ IsParsed value
  | .storeGet key | .storeDelete key => IsEntry cacheKey key
  | .tryAcquireLease key _ _ | .releaseLease key _ | .startHeartbeat key _ _ =>
    key = leaseKey platform cacheKey
  | _ => True

variable {settings : Settings} {platform : Platform} {leases : Bool} {cacheKey : JsString}
  {options : ArticleSearchOptions}

/-! ## The provider call -/

theorem normalizeArticles_parsed {data : Json} (h : IsParsed data) :
    AsyncM.IfOk (fun articles : ArticleList => IsParsed articles.value)
      (normalizeArticles data) := by
  unfold normalizeArticles
  split
  · trivial
  · rename_i value hget
    split
    · trivial
    · rename_i articles harticles
      split
      · trivial
      · show IsParsed articles.value
        rw [asArticleList_value harticles]
        cases data with
        | obj members =>
          obtain ⟨before, after, hmembers, -⟩ := List.lookup_eq_some_iff.mp hget
          exact membersParsed_iff.mp h.2 (js "articles", value) (by rw [hmembers]; simp)
        | _ => cases hget

/-- A failure is thrown on. -/
theorem gives_settleFailure {circuitState : CircuitRequestState} {err : JsError}
    {P : ArticleList → Prop} : AsyncM.Gives ProviderParsed (Asks platform cacheKey)
      (settleFailure platform circuitState err) (AsyncM.IfOk P) := by
  refine gives_ask trivial fun _ _ => gives_ask trivial fun _ _ => gives_ask trivial fun _ _ => ?_
  refine .ite (gives_ask trivial fun _ _ => gives_ask trivial fun _ _ => .throw trivial) ?_
  refine gives_ask trivial fun _ _ => .ite (gives_ask trivial fun _ _ => .throw trivial) ?_
  cases err with
  | axios error =>
    have hthrow : AsyncM.Gives ProviderParsed (Asks platform cacheKey)
        (do throw (mapAxiosError platform (← ask .dateNow) error) : Job ArticleList)
        (AsyncM.IfOk P) := gives_ask trivial fun _ _ => .throw trivial
    exact .ite (gives_ask trivial fun _ _ => hthrow)
      (.ite (gives_ask trivial fun _ _ => hthrow) hthrow)
  | _ =>
    exact .ite (gives_ask trivial fun _ _ => .throw trivial)
      (.ite (gives_ask trivial fun _ _ => .throw trivial) (.throw trivial))

theorem gives_requestArticles :
    AsyncM.Gives ProviderParsed (Asks platform cacheKey) (requestArticles settings options)
      (AsyncM.IfOk fun articles => IsParsed articles.value) := by
  have hget : AsyncM.Gives ProviderParsed (Asks platform cacheKey) (axiosGet settings options)
      (AsyncM.IfOk IsParsed) :=
    Prog.Gives.command trivial fun
      | .ok _ => id
      | .error _ => id
  refine (gives_withUpstreamRetries trivial trivial (fun _ => trivial) trivial trivial
    (fun _ _ _ => trivial) hget).andThen fun data hdata => gives_throwIfAborted trivial ?_ trivial
  exact (AsyncM.Gives.ofExcept (normalizeArticles_parsed hdata)).andThen fun articles harticles =>
    gives_ask trivial fun _ _ => .pure harticles

/-- Whatever a provider call returns was parsed. -/
theorem gives_search :
    AsyncM.Gives ProviderParsed (Asks platform cacheKey) (search settings platform options)
      (AsyncM.IfOk fun articles => IsParsed articles.value) := by
  refine gives_ask trivial fun _ _ => .withFinally ?_
  have hcancel : ∀ r, AsyncM.IfOk (fun articles => IsParsed articles.value) r →
      AsyncM.Gives ProviderParsed (Asks platform cacheKey) (ask .cancelDeadline) fun f =>
        AsyncM.IfOk (fun articles : ArticleList => IsParsed articles.value) (Host.finallyOf r f) :=
    fun r hr => .lift (.command trivial fun _ _ => hr)
  refine AsyncM.Gives.mono ?_ hcancel
  refine gives_throwIfAborted trivial ?_ trivial
  refine AsyncM.Gives.andThen (P := fun _ => True) (gives_withSpan trivial ?_) fun circuitState _ =>
    gives_withSpan trivial (.tryCatch ?_)
  · refine gives_ask trivial fun result _ => .ofExcept ?_
    cases result <;> trivial
  · exact gives_requestArticles.mono fun
      | .ok _ => id
      | .error _ => fun _ => gives_settleFailure

/-! ## The cache -/

section
variable {α : Type} {x : Job α} {signal : Signal}

theorem keeps_ask {c : Command} (hc : Asks platform cacheKey c) :
    AsyncM.Keeps ProviderParsed (Asks platform cacheKey) (ask c) :=
  .lift (.command hc fun _ _ => trivial)

theorem keeps_withSpan (hx : AsyncM.Keeps ProviderParsed (Asks platform cacheKey) x) :
    AsyncM.Keeps ProviderParsed (Asks platform cacheKey) (withSpan x) :=
  gives_withSpan trivial hx

end

theorem keeps_deleteCorruptCacheEntry {key : JsString} (hkey : IsEntry cacheKey key) :
    AsyncM.Keeps ProviderParsed (Asks platform cacheKey) (deleteCorruptCacheEntry key) :=
  .tryCatch (Prog.Gives.command hkey fun _ _ => trivial) fun _ => .pure _

theorem keeps_readArticles {key : JsString} {cache : ArticleSearchCacheStatus}
    (hkey : IsEntry cacheKey key) :
    AsyncM.Keeps ProviderParsed (Asks platform cacheKey) (readArticles key cache) := by
  refine keeps_withSpan (.bind (.attempt (Prog.Gives.command hkey fun _ _ => trivial)) fun r => ?_)
  rcases r with err | _ | cached
  · exact .ite (.bind (keeps_deleteCorruptCacheEntry hkey) fun _ => .pure _) (.pure _)
  · exact .pure _
  · simp only []
    split
    · exact .bind (keeps_deleteCorruptCacheEntry hkey) fun _ => .pure _
    · exact .pure _

theorem keeps_writeArticles {key : JsString} {articles : ArticleList} {ttlSec : Nat}
    (hkey : IsEntry cacheKey key) (harticles : IsParsed articles.value) :
    AsyncM.Keeps ProviderParsed (Asks platform cacheKey) (writeArticles key articles ttlSec) :=
  keeps_withSpan (.tryCatch (Prog.Gives.command ⟨hkey, harticles⟩ fun _ _ => trivial) fun _ => .pure _)

theorem keeps_loadArticlesFromUpstream : AsyncM.Keeps ProviderParsed (Asks platform cacheKey)
    (loadArticlesFromUpstream settings platform options cacheKey) := by
  have hsearch : AsyncM.Gives ProviderParsed (Asks platform cacheKey)
      (searchProvider settings platform options)
      (AsyncM.IfOk fun articles => IsParsed articles.value) := by
    refine .bind (.attempt (gives_search.mono fun result hresult => ?_))
    refine gives_ask trivial fun _ _ => (AsyncM.Gives.ofExcept hresult).andThen fun articles h => ?_
    exact gives_throwIfAborted trivial (.pure h) trivial
  refine AsyncM.Gives.bind (.attempt (hsearch.mono fun result hresult => ?_))
  cases result with
  | error err =>
    refine gives_ask trivial fun _ _ => AsyncM.Keeps.ite (.throw _) (keeps_withSpan ?_)
    refine .bind (keeps_readArticles (.inr rfl)) fun stale => ?_
    cases stale with
    | some result => exact .pure _
    | none => exact .throw _
  | ok articles =>
    refine AsyncM.Keeps.bind ?_ fun _ => .pure _
    exact .bind (keeps_writeArticles (.inl rfl) hresult) fun _ =>
      keeps_writeArticles (.inr rfl) hresult

/-! ## The coordination -/

section
variable {α : Type} {x : Job α}

theorem keeps_coordinatorAborted : AsyncM.Keeps ProviderParsed (Asks platform cacheKey)
    (Cache.throwIfAborted (coordinatorRuntime leases)) :=
  .bind (keeps_ask (c := .aborted .client) trivial) fun _ => .ite (.throw _) (.pure _)

theorem keeps_attemptUnlessAborted
    (hx : AsyncM.Keeps ProviderParsed (Asks platform cacheKey) x) :
    AsyncM.Keeps ProviderParsed (Asks platform cacheKey)
      (attemptUnlessAborted (coordinatorRuntime leases) x) :=
  .tryCatch (.bind hx fun _ => .bind keeps_coordinatorAborted fun _ => .pure _)
    fun _ => .bind keeps_coordinatorAborted fun _ => .pure _

variable {T : Type} {readFresh : Job (Option T)} {load : Job T}
  (hread : AsyncM.Keeps ProviderParsed (Asks platform cacheKey) readFresh)
  (hload : AsyncM.Keeps ProviderParsed (Asks platform cacheKey) load)
include hread hload

theorem keeps_loadUnderLease {owner : JsString} {ttlMs : Nat} :
    AsyncM.Keeps ProviderParsed (Asks platform cacheKey)
      (loadUnderLease (coordinatorRuntime leases) leaseStore (leaseKey platform cacheKey) owner
        ttlMs readFresh load) := by
  refine .withFinally (.bind (keeps_attemptUnlessAborted hread).map fun cached => ?_)
    (.tryCatch (Prog.Gives.command rfl fun _ _ => trivial) fun _ => .pure _)
  cases cached with
  | some cached => exact .pure _
  | none =>
    refine .bind (keeps_ask (c := .startHeartbeat _ _ _) rfl) fun _ => .withFinally ?_
      (keeps_ask (c := .stopHeartbeat) trivial)
    exact .bind hload fun _ => .pure _

theorem keeps_coordinateCacheMiss :
    AsyncM.Keeps ProviderParsed (Asks platform cacheKey)
      (coordinateCacheMiss (coordinatorRuntime leases) settings platform cacheKey readFresh
        load) := by
  have halone : ∀ source, AsyncM.Keeps ProviderParsed (Asks platform cacheKey)
      (loadWithoutCoordination load source) := fun _ => .bind hload fun _ => .pure _
  refine .bind keeps_coordinatorAborted fun _ => ?_
  cases leases with
  | false => exact halone _
  | true =>
    refine .bind (keeps_ask (c := .randomUUID) trivial) fun owner => .bind
      (keeps_ask (c := .dateNow) trivial) fun startedAt => .loop fun _ => ?_
    refine .bind keeps_coordinatorAborted fun _ => .bind (keeps_attemptUnlessAborted
      (Prog.Gives.command rfl fun _ _ => trivial)) fun acquired => ?_
    rcases acquired with _ | _ | _
    · exact (halone _).map
    · refine .bind (keeps_attemptUnlessAborted hread) fun polled => ?_
      rcases polled with _ | _ | cached
      · exact (halone _).map
      · refine .bind (keeps_ask (c := .dateNow) trivial) fun now => .ite (halone _).map ?_
        refine .bind (keeps_ask (c := .random) trivial) fun random => .bind ?_ fun _ => .pure _
        exact .bind keeps_coordinatorAborted fun _ => Prog.Gives.command trivial fun _ _ => trivial
      · exact .pure _
    · exact (keeps_loadUnderLease hread hload).map

end

/-- **The work of a search asks for its own keys and writes what was parsed.** -/
theorem keeps_fetchArticlesFromUpstream : AsyncM.Keeps ProviderParsed (Asks platform cacheKey)
    (fetchArticlesFromUpstream settings platform leases options cacheKey) :=
  .bind (keeps_coordinateCacheMiss (keeps_readArticles (.inl rfl)) keeps_loadArticlesFromUpstream)
    fun _ => .ite (.pure _) (.pure _)

end NewsApi.Services
