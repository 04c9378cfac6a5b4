import NewsApi.Services.CallHistory
import NewsApi.Services.Tasks

/-! # Results were parsed

What the provider sends is parsed, and so is what the server holds. The articles
of every result were parsed then, whichever way they came. -/
namespace NewsApi.Services
open NewsApi.Async NewsApi.Text NewsApi.Types NewsApi.Config NewsApi.Errors NewsApi.Cache
open NewsApi.Runtime NewsApi.Providers NewsApi.Http

/-- The answers that carry values carry parsed ones. -/
def Parsed : (c : Command) → Reply c → Prop
  | .axiosGet _, .ok data => IsParsed data
  | .storeGet _, .ok (some value) => IsParsed value
  | _, _ => True

def AnswersParsed (answer : (c : Command) → Option (Reply c)) : Prop :=
  ∀ c r, answer c = some r → Parsed c r

variable {settings : Settings} {platform : Platform} {leases honest : Bool}
  {options : ArticleSearchOptions} {cacheKey : JsString}

/-- If the job returns a value, it satisfies `P`. -/
def Parses {α : Type} (x : Job α) (P : α → Prop) : Prop :=
  AsyncM.Gives Parsed (fun _ => True) x (AsyncM.IfOk P)

section
variable {α β : Type} {P : α → Prop} {P' : β → Prop} {x : Job α}

theorem parses_any (x : Job α) : AsyncM.Gives Parsed (fun _ => True) x fun _ => True :=
  Prog.Gives.any _

theorem Parses.mono {Q : α → Prop} (hx : Parses x P) (h : ∀ a, P a → Q a) : Parses x Q :=
  AsyncM.Gives.mono hx fun
    | .ok a => h a
    | .error _ => id

theorem Parses.bind {f : α → Job β} (hx : Parses x P) (hf : ∀ a, P a → Parses (f a) P') :
    Parses (x >>= f) P' :=
  AsyncM.Gives.andThen hx hf

/-- The value of the first action does not matter. -/
theorem Parses.after {f : α → Job β} (hf : ∀ a, Parses (f a) P') : Parses (x >>= f) P' :=
  AsyncM.Gives.bind ((parses_any x).mono fun
    | .ok a => fun _ => hf a
    | .error _ => fun _ => trivial)

theorem Parses.pure {a : α} (h : P a) : Parses (pure a : Job α) P := AsyncM.Gives.pure h

theorem Parses.throw (err : JsError) : Parses (throw err : Job α) P := AsyncM.Gives.throw trivial

theorem Parses.ite {c : Prop} [Decidable c] {y : Job α} (hx : Parses x P) (hy : Parses y P) :
    Parses (if c then x else y) P :=
  AsyncM.Gives.ite hx hy

theorem Parses.map {f : α → β} (hx : Parses x fun a => P' (f a)) : Parses (f <$> x) P' :=
  AsyncM.Gives.map (AsyncM.Gives.mono hx fun
    | .ok _ => id
    | .error _ => id)

theorem Parses.withSpan (hx : Parses x P) : Parses (withSpan x) P := gives_withSpan trivial hx

/-- What is done at last may only throw. -/
theorem Parses.withFinally {fin : Job Unit} (hx : Parses x P) :
    Parses (AsyncM.withFinally x fin) P :=
  AsyncM.Gives.withFinally (AsyncM.Gives.mono hx fun _ hr => (parses_any fin).mono fun
    | .ok _ => fun _ => hr
    | .error _ => fun _ => trivial)

end

/-! ## The cache and the provider -/

def ResultParsed (result : ArticleSearchResult) : Prop := IsParsed result.articles.value

/-- A result that was found, if any. -/
def FoundParsed (found : Option ArticleSearchResult) : Prop := ∀ result ∈ found, ResultParsed result

theorem foundParsed_none : FoundParsed none := by
  intro result h
  cases h

theorem parses_readArticles (key : JsString) (cache : ArticleSearchCacheStatus) :
    Parses (readArticles key cache) FoundParsed := by
  refine Parses.withSpan (AsyncM.Gives.bind (.attempt (Prog.Gives.command trivial fun r hr => ?_)))
  rcases r with err | _ | cached
  · exact Parses.ite (.after fun _ => .pure foundParsed_none) (.pure foundParsed_none)
  · exact .pure foundParsed_none
  · simp only []
    split
    · exact Parses.after fun _ => .pure foundParsed_none
    · rename_i articles harticles
      refine Parses.pure fun result hresult => ?_
      cases hresult
      show IsParsed articles.value
      rw [asArticleList_value harticles]
      exact hr

theorem parses_searchProvider :
    Parses (searchProvider settings platform options) fun articles => IsParsed articles.value := by
  have hstored : AsyncM.Gives ProviderParsed (Asks platform []) (search settings platform options)
      (AsyncM.IfOk fun articles => IsParsed articles.value) := gives_search
  have hsearch : Parses (search settings platform options)
      fun articles => IsParsed articles.value := by
    refine Prog.Gives.weaken hstored (fun c r h => ?_) fun _ _ => trivial
    cases c with
    | axiosGet params =>
      cases r with
      | ok data => exact h
      | error err => trivial
    | _ => trivial
  refine AsyncM.Gives.bind (.attempt (AsyncM.Gives.mono hsearch fun result hresult => ?_))
  refine Parses.after fun _ => (AsyncM.Gives.ofExcept hresult).andThen fun articles h => ?_
  exact Parses.after fun _ => .pure h

theorem parses_loadArticlesFromUpstream :
    Parses (loadArticlesFromUpstream settings platform options cacheKey) ResultParsed := by
  refine AsyncM.Gives.bind
    (.attempt (AsyncM.Gives.mono parses_searchProvider fun result hresult => ?_))
  cases result with
  | error err =>
    refine Parses.after fun _ => .ite (.throw _) (.withSpan ?_)
    refine Parses.bind (parses_readArticles _ _) fun stale hstale => ?_
    cases stale with
    | some result => exact .pure (hstale result rfl)
    | none => exact .throw _
  | ok articles => exact Parses.after fun _ => .pure hresult

/-! ## The coordination -/

section
variable {T : Type} {P : T → Prop} {readFresh : Job (Option T)} {load : Job T}

theorem parses_attemptUnlessAborted {α : Type} {Q : α → Prop} {x : Job α} (hx : Parses x Q) :
    Parses (attemptUnlessAborted (coordinatorRuntime leases) x) fun found => ∀ a ∈ found, Q a := by
  have hlast : Parses (do
      Cache.throwIfAborted (coordinatorRuntime leases)
      pure none : Job (Option α)) fun found => ∀ a ∈ found, Q a :=
    .after fun _ => .pure fun a ha => by cases ha
  have hfirst : Parses (do
      let value ← x
      Cache.throwIfAborted (coordinatorRuntime leases)
      pure (some value) : Job (Option α)) fun found => ∀ a ∈ found, Q a := by
    refine Parses.bind hx fun value hvalue => .after fun _ => .pure fun a ha => ?_
    cases ha
    exact hvalue
  exact AsyncM.Gives.tryCatch (AsyncM.Gives.mono hfirst fun
    | .ok _ => id
    | .error _ => fun _ => hlast)

variable (hread : Parses readFresh fun found => ∀ value ∈ found, P value) (hload : Parses load P)

include hload in
theorem parses_loadWithoutCoordination (source : Source) :
    Parses (loadWithoutCoordination load source) fun result => P result.value :=
  .bind hload fun _ hvalue => .pure hvalue

include hread hload

theorem parses_loadUnderLease (key owner : JsString) (ttlMs : Nat) :
    Parses (loadUnderLease (coordinatorRuntime leases) leaseStore key owner ttlMs readFresh load)
      fun result => P result.value := by
  have hrecheck : Parses (recheckFresh (coordinatorRuntime leases) readFresh)
      fun found => ∀ value ∈ found, P value := by
    refine Parses.map ((parses_attemptUnlessAborted hread).mono fun found hfound value hvalue => ?_)
    cases found with
    | none => cases hvalue
    | some inner => exact hfound inner rfl value hvalue
  refine Parses.withFinally (.bind hrecheck fun cached hcached => ?_)
  cases cached with
  | some cached => exact .pure (hcached cached rfl)
  | none => exact .after fun _ => .withFinally (parses_loadWithoutCoordination hload .upstream)

theorem parses_coordinateCacheMiss :
    Parses (coordinateCacheMiss (coordinatorRuntime leases) settings platform cacheKey readFresh
      load) fun result => P result.value := by
  have halone : ∀ source, Parses (.inr <$> loadWithoutCoordination load source :
      Job (Unit ⊕ CacheMissCoordinationResult T)) fun
        | .inl _ => True
        | .inr result => P result.value :=
    fun source => .map (parses_loadWithoutCoordination hload source)
  refine .after fun _ => ?_
  cases leases with
  | false => exact parses_loadWithoutCoordination hload _
  | true =>
    refine .after fun owner => .after fun startedAt =>
      AsyncM.Gives.loop (fun _ => True) trivial fun _ _ => ?_
    have hround : Parses (coordinationRound (coordinatorRuntime true) settings leaseStore
        (leaseKey platform cacheKey) owner (startedAt + settings.cacheLeaseWaitMs) readFresh load)
        fun
          | .inl _ => True
          | .inr result => P result.value := by
      refine .after fun _ => .after fun acquired => ?_
      rcases acquired with _ | _ | _
      · exact halone _
      · refine .bind (parses_attemptUnlessAborted hread) fun polled hpolled => ?_
        rcases polled with _ | _ | cached
        · exact halone _
        · refine .after fun now => .ite (halone _) ?_
          exact .after fun random => .after fun _ => .pure trivial
        · exact .pure (hpolled _ rfl cached rfl)
      · exact .map (parses_loadUnderLease hread hload _ _ _)
    exact AsyncM.Gives.mono hround fun
      | .ok (.inl _) => id
      | .ok (.inr _) => id
      | .error _ => id

end

theorem parses_fetchArticlesFromUpstream :
    Parses (fetchArticlesFromUpstream settings platform leases options cacheKey) ResultParsed := by
  have hload : Parses (loadArticlesFromUpstream settings platform options cacheKey) ResultParsed :=
    parses_loadArticlesFromUpstream
  exact .bind (parses_coordinateCacheMiss (parses_readArticles _ _) hload) fun result hresult =>
    .ite (.pure hresult) (.pure hresult)

/-! ## Runs -/

section
variable {v v' : View} {answer : (c : Command) → Option (Reply c)} {α : Type}

theorem parsed_now {c : Command} {r : Reply c} (h : now settings c v = some (r, v')) :
    Parsed c r := by
  cases c with
  | axiosGet | storeGet => cases h
  | _ => trivial

theorem parses_advance {P : α → Prop} {x : Job α} (hx : Parses x P) (v : View) :
    ((jobHost settings honest).advance x.run v).1.Gives Parsed (fun _ => True) (AsyncM.IfOk P) :=
  (Prog.Gives.advance (h := jobHost settings honest) (P := fun _ => True)
    (fun _ _ _ _ _ _ hn => ⟨parsed_now hn, trivial⟩) (fun _ _ _ _ => trivial) hx trivial).1

theorem parses_resume {p p' : Prog Command Reply (Except JsError α)}
    {Q : Except JsError α → Prop} (hp : p.Gives Parsed (fun _ => True) Q)
    (hgood : AnswersParsed answer)
    (hr : (jobHost settings honest).resume answer p v = some (p', v')) :
    p'.Gives Parsed (fun _ => True) Q :=
  (Prog.Gives.resume (h := jobHost settings honest) (P := fun _ => True)
    (fun _ _ _ _ _ _ hn => ⟨parsed_now hn, trivial⟩) (fun _ _ _ _ => trivial)
    (fun c r _ _ _ ha _ => hgood c r ha) (fun _ _ _ _ _ _ => trivial) hp trivial hr).1

end

variable (settings platform leases honest) in
theorem parsed_rules : TaskRules settings platform leases honest AnswersParsed
    (fun p => p.Gives Parsed (fun _ => True) (AsyncM.IfOk FoundParsed))
    (fun p => p.Gives Parsed (fun _ => True) (AsyncM.IfOk ResultParsed))
    (AsyncM.IfOk ResultParsed) where
  gone := trivial
  reads cacheKey := by
    have hread : Parses (readCachedArticles cacheKey) FoundParsed := parses_readArticles _ _
    exact hread
  looks _ _ _ _ _ hgood hp hr := parses_resume hp hgood hr
  starts _ v := parses_advance parses_fetchArticlesFromUpstream v
  works _ _ _ _ _ hgood hp hr := parses_resume hp hgood hr
  aborted := trivial
  failed _ _ := trivial
  found cached hp := hp cached rfl
  told r existing hp := by
    cases r with
    | ok result =>
      show IsParsed (callResult existing result).articles.value
      rw [callResult_articles]
      exact hp
    | error err => trivial

/-! ## In a cluster -/

section
variable {c : Cluster}

theorem getReply_parsed {key : JsString} (raw : Option JsString) :
    Parsed (.storeGet key) (getReply raw) := by
  cases raw with
  | none => trivial
  | some raw =>
    unfold getReply parseRedisCacheValue
    dsimp only
    cases hparse : JsonText.parseJson raw with
    | none => trivial
    | some data => exact parseJson_parsed hparse

/-- Whatever a cluster answers was parsed. -/
theorem answered_parsed (c : Cluster) (delivery : Delivery) (event : Event) :
    (c.answered delivery event).AnsweredBy AnswersParsed := by
  have hanswer : ∀ answer, AnswersParsed (c.answer delivery answer) := by
    intro answer command r h
    cases command with
    | axiosGet params =>
      obtain ⟨result, -, rfl⟩ := Option.map_eq_some_iff.mp h
      cases result with
      | error error => trivial
      | ok data => exact responseData_parsed delivery.body
    | storeGet key =>
      obtain ⟨result, -, h⟩ := Option.bind_eq_some_iff.mp h
      cases result with
      | error error =>
        dsimp only at h
        split at h <;> cases h
        trivial
      | ok value =>
        obtain ⟨reply, -, rfl⟩ := Option.map_eq_some_iff.mp h
        exact getReply_parsed reply.2
    | _ => trivial
  cases event with
  | callReply i answer => exact hanswer answer
  | jobReply n answer => exact hanswer answer
  | _ => trivial

theorem results_parsed {k : Nat} {db : Lease.Db}
    (hs : Reachable (clusterStep settings platform honest) (.initial k db) c) :
    ∀ p ∈ c.replicas, ∀ call ∈ p.calls, ∀ result, call.outcome = some (.ok result) →
      ResultParsed result := by
  have htasks : ∀ p ∈ c.replicas, Tasks
      (fun p => p.Gives Parsed (fun _ => True) (AsyncM.IfOk FoundParsed))
      (fun p => p.Gives Parsed (fun _ => True) (AsyncM.IfOk ResultParsed))
      (AsyncM.IfOk ResultParsed) p := by
    refine hs.invariant (P := fun c : Cluster => ∀ p ∈ c.replicas, Tasks _ _ _ p) ?_
      fun c ev c' h hstep => ?_
    · intro p hp
      obtain rfl := List.eq_of_mem_replicate hp
      exact .initial
    · rcases clusterStep_replicas hstep with
        ⟨r, event, delivery, p, p', -, hp, hreplica, rfl⟩ | ⟨-, hsame⟩
      · exact mem_set h (tasks_step (parsed_rules settings platform true honest)
          (h p (List.mem_of_getElem? hp)) (answered_parsed c delivery event) hreplica)
      · exact fun p hp => h p (hsame ▸ hp)
  exact fun p hp call hcall result hout => ((htasks p hp).calls call hcall).outcome _ hout

end

end NewsApi.Services
