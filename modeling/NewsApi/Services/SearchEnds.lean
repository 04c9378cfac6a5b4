import NewsApi.Async.Ends
import NewsApi.Runtime.JobHost
import NewsApi.Services.NewsService

/-! # A search ends

The program of a search has two loops. The attempts of the provider call are
counted. The coordination polls until its clock has passed the deadline, so it
ends as soon as time has gone by. -/
namespace NewsApi.Services
open NewsApi.Async NewsApi.Text NewsApi.Types NewsApi.Config NewsApi.Errors NewsApi.Cache
open NewsApi.Runtime NewsApi.Providers

/-- The replies to a search whose clock shows at least `T`. -/
def InTime (T : Nat) : (c : Command) → Reply c → Prop
  | .dateNow, now => T ≤ now
  | _, _ => True

section
variable {settings : Settings} {honest : Bool} {c : Command} {r : Reply c} {v v' : View}

theorem now_clock (h : now settings c v = some (r, v')) :
    v'.sh.clock = v.sh.clock ∧ InTime v.sh.clock c r := by
  cases c <;> simp only [now, Option.some.injEq, Prod.mk.injEq, reduceCtorEq] at h <;>
    obtain ⟨hr, rfl⟩ := h <;>
    first | exact ⟨rfl, trivial⟩ | exact ⟨rfl, hr.le⟩

theorem reply_clock (h : reply honest c r v = some v') : v'.sh.clock = v.sh.clock :=
  congrArg Shared.clock (reply_frame h).1

/-- The clock is read within a step. -/
theorem inTime_of_waits {T : Nat} (h : now settings c v = none) : InTime T c r := by
  cases c with
  | dateNow => cases h
  | _ => trivial

end

/-- The clock is the phase of the process. -/
theorem jobHost_phased (settings : Settings) (honest : Bool) :
    (jobHost settings honest).Phased (·.sh.clock) InTime where
  anti {T T' c r} hT h := by
    cases c with
    | dateNow => exact hT.trans h
    | _ => trivial
  now h := ⟨(now_clock h).1.ge, (now_clock h).2⟩
  issue c v := (congrArg Shared.clock issue_sh).ge
  reply hn hr := ⟨(reply_clock hr).ge, inTime_of_waits hn⟩
  reply_phase hr := (reply_clock hr).ge

variable {settings : Settings} {platform : Platform} {leases : Bool}
  {options : ArticleSearchOptions} {cacheKey : JsString} {T : Nat}

/-! ## Parts without loops -/

section
variable {α : Type} {x : Job α} {signal : Signal}

theorem halts_ask (c : Command) : AsyncM.Halts InTime (ask c) T := .command c

theorem halts_throwIfAborted : AsyncM.Halts InTime (throwIfAborted signal) T :=
  .bind (halts_ask _) fun _ => .ite (.throw _) (.pure _)

theorem halts_withSpan (hx : AsyncM.Halts InTime x T) : AsyncM.Halts InTime (withSpan x) T :=
  .bind (.attempt hx) fun _ => .bind (halts_ask _) fun _ => .ofExcept _

theorem halts_sleep (delayMs : Nat) : AsyncM.Halts InTime (sleep delayMs signal) T :=
  .bind halts_throwIfAborted fun _ _ _ => trivial

end

theorem halts_deleteCorruptCacheEntry (key : JsString) :
    AsyncM.Halts InTime (deleteCorruptCacheEntry key) T :=
  .tryCatch (fun _ _ => trivial) fun _ => .pure _

theorem halts_readArticles (key : JsString) (cache : ArticleSearchCacheStatus) :
    AsyncM.Halts InTime (readArticles key cache) T := by
  refine halts_withSpan (.bind (.attempt fun _ _ => trivial) fun r => ?_)
  rcases r with err | _ | cached
  · exact .ite (.bind (halts_deleteCorruptCacheEntry key) fun _ => .pure _) (.pure _)
  · exact .pure _
  · simp only []
    split
    · exact .bind (halts_deleteCorruptCacheEntry key) fun _ => .pure _
    · exact .pure _

theorem halts_writeArticles (key : JsString) (articles : ArticleList) (ttlSec : Nat) :
    AsyncM.Halts InTime (writeArticles key articles ttlSec) T :=
  halts_withSpan (.tryCatch (fun _ _ => trivial) fun _ => .pure _)

theorem halts_settleFailure (circuitState : CircuitRequestState) (err : JsError) :
    AsyncM.Halts InTime (settleFailure platform circuitState err) T := by
  refine .bind (halts_ask _) fun _ => .bind (halts_ask _) fun _ => .bind (halts_ask _) fun _ => ?_
  refine .ite (.bind (halts_ask _) fun _ => .bind (halts_ask _) fun _ => .throw _) ?_
  refine .bind (halts_ask _) fun _ => .ite (.bind (halts_ask _) fun _ => .throw _) ?_
  cases err with
  | axios error =>
    have hthrow : AsyncM.Halts InTime (do
        throw (mapAxiosError platform (← ask .dateNow) error) : Job ArticleList) T :=
      .bind (halts_ask _) fun _ => .throw _
    exact .ite (.bind (halts_ask _) fun _ => hthrow)
      (.ite (.bind (halts_ask _) fun _ => hthrow) hthrow)
  | _ =>
    exact .ite (.bind (halts_ask _) fun _ => .throw _)
      (.ite (.bind (halts_ask _) fun _ => .throw _) (.throw _))

/-! ## The attempts of a provider call -/

/-- One more attempt is made while the budget lasts. -/
def NextAttempt (settings : Settings) (attempt next : Nat) : Prop :=
  next = attempt + 1 ∧ attempt < settings.retryAttempts

theorem ends_afterFailedAttempt {α : Type} {signal : Signal} (attempt : Nat) (error : JsError) :
    AsyncM.Ends InTime (afterFailedAttempt (T := α) settings signal attempt error) T
      (AsyncM.GoesOn (NextAttempt settings attempt)) := by
  refine .command fun aborted _ => ?_
  split
  · exact trivial
  · split
    · exact trivial
    · rename_i hbudget
      simp only [Bool.or_eq_true, decide_eq_true_eq, not_or, Nat.not_le] at hbudget
      refine .command fun random _ => ?_
      exact (halts_withSpan (halts_sleep _)).andThen (fun _ => .pure ⟨rfl, hbudget.1⟩)
        fun _ => trivial

theorem halts_withUpstreamRetries {α : Type} {operation : Job α} {signal : Signal}
    (hx : ∀ T, AsyncM.Halts InTime operation T) :
    AsyncM.Halts InTime (withUpstreamRetries settings operation signal) T := by
  have hattempt : ∀ attempt T, AsyncM.Ends InTime (tryCatch
      (do
        throwIfAborted signal
        let value ← operation
        pure (.inr value))
      (afterFailedAttempt settings signal attempt)) T
      (AsyncM.GoesOn (NextAttempt settings attempt)) := by
    intro attempt T
    have hfailed : ∀ error, AsyncM.Ends InTime (afterFailedAttempt (T := α) settings signal attempt
      error) T (AsyncM.GoesOn (NextAttempt settings attempt)) := ends_afterFailedAttempt attempt
    refine .tryCatch (halts_throwIfAborted.andThen (fun _ => ?_) hfailed)
    exact (hx T).andThen (fun _ => .pure trivial) hfailed
  refine .loop T (fun attempt left => attempt + left = settings.retryAttempts + 1) (Nat.le_refl T)
    ⟨_, Nat.zero_add _⟩ fun attempt left hleft => ⟨(hattempt attempt T).mono ?_,
      (hattempt attempt T).mono ?_⟩
  · rintro (_ | next | _) hnext
    · trivial
    · exact ⟨left - 1, by have := hnext.1; have := hnext.2; omega⟩
    · trivial
  · rintro (_ | next | _) hnext
    · trivial
    · exact ⟨left - 1, by have := hnext.2; omega, by have := hnext.1; have := hnext.2; omega⟩
    · trivial

theorem halts_requestArticles : AsyncM.Halts InTime (requestArticles settings options) T :=
  .bind (halts_withUpstreamRetries fun _ _ _ => trivial) fun _ =>
    .bind halts_throwIfAborted fun _ => .bind (.ofExcept _) fun _ =>
      .bind (halts_ask _) fun _ => .pure _

theorem halts_search : AsyncM.Halts InTime (search settings platform options) T := by
  refine .bind (halts_ask _) fun _ => .withFinally ?_ (halts_ask _)
  refine .bind halts_throwIfAborted fun _ => .bind (halts_withSpan ?_) fun circuitState => ?_
  · exact .bind (halts_ask _) fun _ => .ofExcept _
  · exact halts_withSpan (.tryCatch halts_requestArticles (halts_settleFailure circuitState))

theorem halts_searchProvider : AsyncM.Halts InTime (searchProvider settings platform options) T :=
  .bind (.attempt halts_search) fun _ => .bind (halts_ask _) fun _ =>
    .bind (.ofExcept _) fun _ => .bind halts_throwIfAborted fun _ => .pure _

theorem halts_loadArticlesFromUpstream :
    AsyncM.Halts InTime (loadArticlesFromUpstream settings platform options cacheKey) T := by
  refine .bind (.attempt halts_searchProvider) fun result => ?_
  cases result with
  | error err =>
    refine .bind (halts_ask _) fun _ => .ite (.throw _) (halts_withSpan ?_)
    refine .bind (halts_readArticles _ _) fun stale => ?_
    cases stale with
    | some result => exact .pure _
    | none => exact .throw _
  | ok articles =>
    refine .bind ?_ fun _ => .pure _
    exact .bind (halts_writeArticles _ _ _) fun _ => halts_writeArticles _ _ _

/-! ## The coordination -/

section
variable {α : Type} {x : Job α}

theorem halts_coordinatorAborted :
    AsyncM.Halts InTime (Cache.throwIfAborted (coordinatorRuntime leases)) T :=
  .bind (halts_ask _) fun _ => .ite (.throw _) (.pure _)

theorem halts_attemptUnlessAborted (hx : AsyncM.Halts InTime x T) :
    AsyncM.Halts InTime (attemptUnlessAborted (coordinatorRuntime leases) x) T :=
  .tryCatch (.bind hx fun _ => .bind halts_coordinatorAborted fun _ => .pure _)
    fun _ => .bind halts_coordinatorAborted fun _ => .pure _

/-- The loop is left. -/
theorem ends_leave {I : Unit → Prop} (hx : AsyncM.Halts InTime x T) :
    AsyncM.Ends InTime (.inr <$> x) T (AsyncM.GoesOn I) :=
  .map (hx.mono fun
    | .ok _ => fun _ => trivial
    | .error _ => fun _ => trivial)

variable {readFresh : Job (Option α)} {load : Job α}
  (hread : ∀ T, AsyncM.Halts InTime readFresh T) (hload : ∀ T, AsyncM.Halts InTime load T)

include hload

theorem halts_loadWithoutCoordination (source : Source) :
    AsyncM.Halts InTime (loadWithoutCoordination load source) T :=
  .bind (hload T) fun _ => .pure _

include hread

theorem halts_loadUnderLease (key owner : JsString) (ttlMs : Nat) :
    AsyncM.Halts InTime (loadUnderLease (coordinatorRuntime leases) leaseStore key owner ttlMs
      readFresh load) T := by
  refine .withFinally (.bind (halts_attemptUnlessAborted (hread T)).map fun cached => ?_)
    (.tryCatch (fun _ _ => trivial) fun _ => .pure _)
  cases cached with
  | some cached => exact .pure _
  | none =>
    refine .bind (halts_ask _) fun _ => .withFinally ?_ (halts_ask _)
    exact .bind (hload T) fun _ => .pure _

/-- Once the clock has passed the deadline, a round is the last. -/
theorem ends_coordinationRound (key owner : JsString) (waitDeadline : Nat) :
    AsyncM.Ends InTime (coordinationRound (coordinatorRuntime leases) settings leaseStore key owner
      waitDeadline readFresh load) T (AsyncM.GoesOn fun _ => T < waitDeadline) := by
  refine halts_coordinatorAborted.andThen (fun _ => ?_) fun _ => trivial
  have hacquire : AsyncM.Halts InTime (acquireLease (coordinatorRuntime leases) leaseStore key owner
      settings.cacheLeaseTtlMs) T := halts_attemptUnlessAborted fun _ _ => trivial
  refine hacquire.andThen (fun acquired => ?_) fun _ => trivial
  rcases acquired with _ | _ | _
  · exact ends_leave (halts_loadWithoutCoordination hload _)
  · have hpoll : AsyncM.Halts InTime (pollFresh (coordinatorRuntime leases) readFresh) T :=
      halts_attemptUnlessAborted (hread T)
    refine hpoll.andThen (fun polled => ?_) fun _ => trivial
    rcases polled with _ | _ | cached
    · exact ends_leave (halts_loadWithoutCoordination hload _)
    · refine AsyncM.Ends.command (c := Command.dateNow) fun now hnow => ?_
      split
      · exact ends_leave (halts_loadWithoutCoordination hload _)
      · rename_i hearly
        refine AsyncM.Ends.command (c := Command.random) fun random _ => ?_
        refine AsyncM.Halts.andThen ?_ (fun _ => .pure ?_) fun _ => trivial
        · exact .bind halts_coordinatorAborted fun _ _ _ => trivial
        · exact lt_of_le_of_lt hnow (Nat.not_le.mp hearly)
    · exact .pure trivial
  · exact ends_leave (halts_loadUnderLease hread hload _ _ _)

theorem halts_coordinateCacheMiss (cacheKey : JsString) :
    AsyncM.Halts InTime (coordinateCacheMiss (coordinatorRuntime leases) settings platform cacheKey
      readFresh load) T := by
  refine .bind halts_coordinatorAborted fun _ => ?_
  cases leases with
  | false => exact halts_loadWithoutCoordination hload _
  | true =>
    refine .bind (halts_ask _) fun owner => .bind (halts_ask _) fun startedAt => ?_
    have hround : ∀ T, AsyncM.Ends InTime (coordinationRound (coordinatorRuntime true) settings
        leaseStore (leaseKey platform cacheKey) owner (startedAt + settings.cacheLeaseWaitMs)
        readFresh load) T
        (AsyncM.GoesOn fun _ => T < startedAt + settings.cacheLeaseWaitMs) := fun _ =>
      ends_coordinationRound hread hload _ _ _
    refine .loop (max T (startedAt + settings.cacheLeaseWaitMs)) (fun _ _ => True)
      (Nat.le_max_left ..) ⟨0, trivial⟩ fun _ _ _ => ⟨(hround T).mono ?_, (hround _).mono ?_⟩
    · rintro (_ | _ | _) hnext
      · trivial
      · exact ⟨0, trivial⟩
      · trivial
    · rintro (_ | _ | _) hnext
      · trivial
      · exact absurd hnext (Nat.not_lt.mpr (Nat.le_max_right ..))
      · trivial

end

/-- **The work of a search ends**, whatever the cache, the leases and the provider answer. -/
theorem halts_fetchArticlesFromUpstream :
    AsyncM.Halts InTime (fetchArticlesFromUpstream settings platform leases options cacheKey) T :=
  .bind (halts_coordinateCacheMiss (fun _ => halts_readArticles _ _)
    (fun _ => halts_loadArticlesFromUpstream) cacheKey) fun _ => .ite (.pure _) (.pure _)

end NewsApi.Services
