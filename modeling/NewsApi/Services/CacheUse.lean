import NewsApi.Async.Waiting
import NewsApi.Providers.SearchSpec
import NewsApi.Runtime.Watched
import NewsApi.Services.JobSpec

/-! # How a search uses the cache

What the upstream work of a search asks of the store, from its log: the fresh
entry is written before the stale one, both with what the provider returned; an
entry is deleted only before that, and the stale one only if it could not be
read; and unless the search was cancelled it fails only if the stale entry
could not be read. -/
namespace NewsApi.Services
open NewsApi.Async NewsApi.Text NewsApi.Types NewsApi.Config NewsApi.Errors NewsApi.Cache
open NewsApi.Runtime NewsApi.Providers

def freshWrite (key : JsString) (articles : ArticleList) : JsString × Json × Nat :=
  (key, articles.value, TTL_SEC)

def staleWrite (settings : Settings) (key : JsString) (articles : ArticleList) :
    JsString × Json × Nat :=
  (staleCacheKey key, articles.value, settings.staleCacheTtlSec)

/-- What a search has written, newest first. -/
inductive InOrder (settings : Settings) (key : JsString) (lo : Local) : Prop
  | unwritten (hw : lo.writes = [])
  | fresh (articles : ArticleList) (hp : lo.provider = some (.ok articles))
    (hw : lo.writes = [freshWrite key articles])
  | both (articles : ArticleList) (hp : lo.provider = some (.ok articles))
    (hw : lo.writes = [staleWrite settings key articles, freshWrite key articles])

/-- A read of the entry was answered with something else than articles. -/
def Unserved (key : JsString) (log : Log) : Prop :=
  ∃ r v, .answered (.storeGet key) r v ∈ log ∧
    ∀ articles : ArticleList, r ≠ .ok (some articles.value)

/-- The search does not wait for a delete. -/
def NoDelete (log : Log) : Prop := ∀ k v rest, log ≠ .sent (.storeDelete k) v :: rest

structure Orderly (settings : Settings) (key : JsString) (t : Scene) : Prop where
  writes : InOrder settings key t.state.lo
  deletes : NoDelete t.log ∨ t.state.lo.writes = [] ∧ ∃ k v rest,
    t.log = .sent (.storeDelete k) v :: rest ∧ (k = key ∨ k = staleCacheKey key ∧ Unserved k rest)

def cacheContract (settings : Settings) (key : JsString) : Contract Scene where
  inv := Orderly settings key
  rely t t' := Meanwhile t.state t'.state ∧ t'.log = t.log
  atLoop _ := True
  rely_refl t := ⟨.refl t.state, rfl⟩
  rely_trans h h' := ⟨h.1.trans h'.1, h'.2.trans h.2⟩

/-- Without a cancellation, a failure means that the stale entry was of no use. -/
def Excused {α : Type} (key : JsString) (r : Except JsError α) (t : Scene) : Prop :=
  ∀ e, r = .error e → isRequestAbortedError e = true ∨ Unserved (staleCacheKey key) t.log

/-- Nothing is written yet, nor is anything to be deleted. -/
structure Calm (t : Scene) : Prop where
  idle : Idle t.state
  quiet : NoDelete t.log

variable {settings : Settings} {platform : Platform} {honest : Bool} {key k : JsString}
  {t t' : Scene} {a : Act Command Reply View} {log : Log} {α : Type}

theorem InOrder.congr {lo lo' : Local} (h : InOrder settings key lo)
    (hp : lo'.provider = lo.provider) (hw : lo'.writes = lo.writes) : InOrder settings key lo' := by
  cases h with
  | unwritten h => exact .unwritten (hw.trans h)
  | fresh articles h1 h2 => exact .fresh articles (hp.trans h1) (hw.trans h2)
  | both articles h1 h2 => exact .both articles (hp.trans h1) (hw.trans h2)

theorem Unserved.cons (h : Unserved k log) : Unserved k (a :: log) := by
  obtain ⟨r, v, hmem, hr⟩ := h
  exact ⟨r, v, List.mem_cons_of_mem a hmem, hr⟩

theorem Excused.cons {r : Except JsError α} {v : View} (h : Excused key r t) :
    Excused key r ⟨v, a :: t.log⟩ :=
  fun e he => (h e he).imp_right .cons

theorem Excused.ok {x : α} : Excused key (.ok x) t := nofun

theorem excused_aborted {e : JsError} (h : isRequestAbortedError e = true) :
    Excused key (.error e : Except JsError α) t :=
  fun _ he => .inl (Except.error.inj he ▸ h)

theorem noDelete_nil : NoDelete [] := fun _ _ _ => (List.cons_ne_nil _ _).symm

theorem noDelete_answered {c : Command} {r : Reply c} {v : View} :
    NoDelete (.answered c r v :: log) := by
  intro k v rest h
  cases h

theorem noDelete_sent {c : Command} {v : View} (hc : ∀ k, c ≠ .storeDelete k) :
    NoDelete (.sent c v :: log) := by
  intro k v rest h
  cases h
  exact hc k rfl

theorem Calm.orderly (h : Calm t) : Orderly settings key t :=
  ⟨.unwritten h.idle.writes, .inl h.quiet⟩

theorem Calm.rely (h : Calm t) (hr : (cacheContract settings key).rely t t') : Calm t' :=
  ⟨h.idle.grows hr.1.toGrows, by rw [hr.2]; exact h.quiet⟩

/-! ## Rules -/

section
variable {K : Contract Scene} {c : Command}

/-- A command answered within the step, before the rest of the block. -/
theorem wp_ask_posted {v : View} {r : Reply c} {f : Reply c → Job α}
    {Q : Except JsError α → Scene → Prop} (hn : now settings c t.state = some (r, v))
    (hq : (jobHost settings honest).posted.wp K (f r).run Q (t.setState v)) :
    (jobHost settings honest).posted.wp K (ask c >>= f).run Q t := by
  rw [Host.wp_run_bind, ask, Host.wp_run_lift]
  exact Host.wp_posted_now hn hq

/-- A command that suspends the program. -/
theorem wp_await_posted {Q : Reply c → Scene → Prop} (hn : now settings c t.state = none)
    (hi : K.inv ⟨issue c t.state, .sent c t.state :: t.log⟩)
    (hq : ∀ t', K.rely ⟨issue c t.state, .sent c t.state :: t.log⟩ t' → K.inv t' →
      ∀ r v, reply honest c r t'.state = some v → Q r ⟨v, .answered c r v :: t'.log⟩) :
    (jobHost settings honest).posted.wp K (command c) Q t :=
  Host.wp_posted_wait hn hi hq

theorem wp_throwIfAborted_posted {signal : Signal} {Q : Except JsError Unit → Scene → Prop}
    (hq : Q (if t.state.aborted signal then .error .requestAborted else .ok ()) t) :
    (jobHost settings honest).posted.wp K (throwIfAborted signal).run Q t := by
  refine wp_ask_posted (v := t.state) rfl ?_
  cases h : t.state.aborted signal <;> simpa [h, Traced.setState] using hq

/-- A span waits one turn after its operation has settled. -/
theorem wp_withSpan_posted {operation : Job α} {Q : Except JsError α → Scene → Prop}
    (h : (jobHost settings honest).posted.wp K operation.run (fun r t =>
      K.inv ⟨t.state, .sent .tick t.state :: t.log⟩ ∧
      ∀ t', K.rely ⟨t.state, .sent .tick t.state :: t.log⟩ t' → K.inv t' →
        Q r ⟨t'.state, .answered .tick () t'.state :: t'.log⟩) t) :
    (jobHost settings honest).posted.wp K (withSpan operation).run Q t := by
  simp only [withSpan, Host.wp_run_bind, Host.wp_run_attempt, Host.afterOk_ok]
  refine Host.wp_mono h fun r t1 h1 => ?_
  rw [ask, Host.wp_run_lift]
  refine wp_await_posted (c := .tick) rfl h1.1 fun t2 h2 h3 r2 v hr => ?_
  cases hr
  exact h1.2 t2 h2 h3

end

/-! ## The provider call -/

/-- The commands that have nothing to do with the cache. -/
def Aside : Command → Prop
  | .storeGet _ | .storeSet _ _ _ | .storeDelete _ | .providerSettled _ => False
  | _ => True

theorem only_rethrow {err : JsError} :
    AsyncM.Only Aside (match err with
      | .axios error => do throw (mapAxiosError platform (← ask .dateNow) error)
      | err => throw err : Job ArticleList) := by
  cases err with
  | axios error => exact .bind (only_ask trivial) fun _ => .throw _
  | _ => exact .throw _

theorem only_search {options : ArticleSearchOptions} :
    AsyncM.Only Aside (search settings platform options) := by
  refine .bind (only_ask trivial) fun _ => .withFinally ?_ (only_ask trivial)
  refine .bind (only_throwIfAborted trivial) fun _ => .bind (only_withSpan trivial ?_) fun st =>
    only_withSpan trivial (.tryCatch ?_ fun err => ?_)
  · exact .bind (only_ask trivial) fun _ => .ofExcept _
  · refine .bind ?_ fun data => .bind (only_throwIfAborted trivial) fun _ => ?_
    · exact only_withUpstreamRetries trivial trivial (fun _ => trivial) trivial
        (Prog.Only.command trivial)
    · exact .bind (.ofExcept _) fun _ => .bind (only_ask trivial) fun _ => .pure _
  · refine .bind (only_ask trivial) fun _ => .bind (only_ask trivial) fun _ =>
      .bind (only_ask trivial) fun _ => ?_
    refine .ite (.bind (only_ask trivial) fun _ => .bind (only_ask trivial) fun _ => .throw _) ?_
    refine .bind (only_ask trivial) fun _ => .ite (.bind (only_ask trivial) fun _ => .throw _) ?_
    refine .ite (.bind (only_ask trivial) fun _ => only_rethrow) ?_
    exact .ite (.bind (only_ask trivial) fun _ => only_rethrow) only_rethrow

theorem now_aside {c : Command} {r : Reply c} {v v' : View}
    (hn : now settings c v = some (r, v')) (hc : Aside c) :
    v'.lo.provider = v.lo.provider ∧ v'.lo.writes = v.lo.writes := by
  cases c <;> simp only [now, Option.some.injEq, Prod.mk.injEq, reduceCtorEq] at hn <;>
    first | exact hc.elim | (obtain ⟨-, rfl⟩ := hn; exact ⟨rfl, rfl⟩)

/-- What has nothing to do with the cache leaves the search where it is. -/
theorem wp_aside {x : Job α} (hx : AsyncM.Only Aside x) (ht : Calm t) :
    (jobHost settings honest).posted.wp (cacheContract settings key) x.run (fun _ => Calm) t := by
  refine Host.wp_only hx (fun t h => ⟨h.orderly, trivial⟩) (fun t t' h hr _ => h.rely hr)
    ?_ ?_ ?_ ht
  · intro c t r t' hc h hn
    obtain ⟨next, hnext, heq⟩ := Option.map_eq_some_iff.mp hn
    cases heq
    obtain ⟨hp, hw⟩ := now_aside hnext hc
    exact ⟨⟨hp.trans h.idle.provider, hw.trans h.idle.writes⟩, h.quiet⟩
  · intro c t hc h _
    have hissue : issue c t.state = t.state := by
      cases c <;> first | exact hc.elim | rfl
    refine ⟨?_, noDelete_sent fun k hk => ?_⟩
    · show Idle (issue c t.state)
      rw [hissue]
      exact h.idle
    · subst hk
      exact hc
  · intro c r t t' hc h hr
    obtain ⟨v, hv, rfl⟩ := Option.map_eq_some_iff.mp hr
    exact ⟨h.idle.grows (reply_meanwhile hv).toGrows, noDelete_answered⟩

/-- The provider call is over, and nothing is written yet. -/
structure Fetched (r : Except JsError ArticleList) (t : Scene) : Prop where
  writes : t.state.lo.writes = []
  quiet : NoDelete t.log
  provider : ∀ articles, r = .ok articles → t.state.lo.provider = some (.ok articles)

theorem wp_searchProvider_fetched {options : ArticleSearchOptions} (ht : Calm t) :
    (jobHost settings honest).posted.wp (cacheContract settings key)
      (searchProvider settings platform options).run Fetched t := by
  rw [searchProvider, Host.wp_run_bind, Host.wp_run_attempt]
  refine Host.wp_mono (wp_aside only_search ht) fun r t1 h1 => wp_ask_posted rfl ?_
  rw [Host.wp_run_bind, Host.wp_run_ofExcept]
  have hfirst : t1.state.lo.provider.or (some r) = some r := by rw [h1.idle.provider]; rfl
  cases r with
  | error e => exact ⟨h1.idle.writes, h1.quiet, fun _ he => by cases he⟩
  | ok articles =>
    rw [Host.afterOk_ok, Host.wp_run_bind]
    refine wp_throwIfAborted_posted ?_
    split
    · exact ⟨h1.idle.writes, h1.quiet, fun _ he => by cases he⟩
    · refine ⟨h1.idle.writes, h1.quiet, fun _ he => ?_⟩
      cases he
      exact hfirst

/-! ## Reading and writing -/

/-- Nothing is written yet, and a lookup of the entry settles with `r`. -/
structure Looked (k : JsString) (r : Except JsError (Option ArticleSearchResult)) (t t' : Scene) :
    Prop where
  grows : Grows t.state t'.state
  quiet : NoDelete t'.log
  returns : ∀ e, r ≠ .error e
  unserved : r = .ok none → Unserved k t'.log

theorem wp_deleteCorruptCacheEntry_traced {Q : Except JsError Unit → Scene → Prop}
    (hk : k = key ∨ k = staleCacheKey key ∧ Unserved k t.log) (hw : t.state.lo.writes = [])
    (hq : ∀ t', Meanwhile t.state t'.state → NoDelete t'.log →
      (Unserved k t.log → Unserved k t'.log) → Q (.ok ()) t') :
    (jobHost settings honest).posted.wp (cacheContract settings key)
      (deleteCorruptCacheEntry k).run Q t := by
  rw [deleteCorruptCacheEntry, Host.wp_run_tryCatch]
  refine wp_await_posted (c := .storeDelete k) rfl
    ⟨.unwritten hw, .inr ⟨hw, k, _, _, rfl, hk⟩⟩ fun t1 h1 _ r v hr => ?_
  have hm : Meanwhile t.state v := h1.1.trans (reply_meanwhile hr)
  have hlog : Unserved k t.log → Unserved k (.answered (.storeDelete k) r v :: t1.log) := by
    intro hu
    rw [h1.2]
    exact hu.cons.cons
  cases r with
  | error e => exact hq _ hm noDelete_answered hlog
  | ok _ => exact hq _ hm noDelete_answered hlog

theorem wp_readArticles_looked {cache : ArticleSearchCacheStatus}
    (hk : k = key ∨ k = staleCacheKey key) (hw : t.state.lo.writes = []) :
    (jobHost settings honest).posted.wp (cacheContract settings key) (readArticles k cache).run
      (fun r t' => Looked k r t t') t := by
  have hspan : ∀ {r : Except JsError (Option ArticleSearchResult)} {t1 : Scene},
      Meanwhile t.state t1.state → (∀ e, r ≠ .error e) → (r = .ok none → Unserved k t1.log) →
      (cacheContract settings key).inv ⟨t1.state, .sent .tick t1.state :: t1.log⟩ ∧
        ∀ t2, (cacheContract settings key).rely ⟨t1.state, .sent .tick t1.state :: t1.log⟩ t2 →
          (cacheContract settings key).inv t2 →
          Looked k r t ⟨t2.state, .answered .tick () t2.state :: t2.log⟩ := by
    intro r t1 h1 hr hu
    refine ⟨⟨.unwritten (h1.writes.trans hw), .inl (noDelete_sent nofun)⟩, fun t2 h2 _ => ?_⟩
    refine ⟨h1.toGrows.trans h2.1.toGrows, noDelete_answered, hr, fun hn => ?_⟩
    rw [h2.2]
    exact (hu hn).cons.cons
  refine wp_withSpan_posted ?_
  rw [Host.wp_run_bind, Host.wp_run_attempt]
  refine wp_await_posted (c := .storeGet k) rfl ⟨.unwritten hw, .inl (noDelete_sent nofun)⟩
    fun t1 h1 _ r v hr => ?_
  have hm : Meanwhile t.state v := h1.1.trans (reply_meanwhile hr)
  rw [Host.afterOk_ok]
  -- a corrupt entry is deleted
  have hcorrupt : (∀ articles : ArticleList, r ≠ .ok (some articles.value)) →
      Unserved k (.answered (.storeGet k) r v :: t1.log) :=
    fun hne => ⟨r, v, List.mem_cons_self, hne⟩
  have hdelete : ∀ {Q : Except JsError (Option ArticleSearchResult) → Scene → Prop},
      (∀ articles : ArticleList, r ≠ .ok (some articles.value)) →
      (∀ t2 : Scene, Meanwhile t.state t2.state → Unserved k t2.log → Q (.ok none) t2) →
      (jobHost settings honest).posted.wp (cacheContract settings key)
        (do deleteCorruptCacheEntry k; pure none : Job (Option ArticleSearchResult)).run Q
        ⟨v, .answered (.storeGet k) r v :: t1.log⟩ := by
    intro Q hne hq
    rw [Host.wp_run_bind]
    refine wp_deleteCorruptCacheEntry_traced (hk.imp_right fun h => ⟨h, hcorrupt hne⟩)
      (hm.writes.trans hw) fun t2 h2 _ hu => ?_
    exact hq t2 (hm.trans h2) (hu (hcorrupt hne))
  rcases r with err | _ | cached
  · have hne : ∀ articles : ArticleList,
        (.error err : Except JsError (Option Json)) ≠ .ok (some articles.value) := nofun
    cases hc : isCacheCorruptionError err
    · simp only [hc]
      exact hspan hm nofun fun _ => hcorrupt hne
    · simp only [hc, if_true]
      exact hdelete hne fun t2 h2 hu => hspan h2 nofun fun _ => hu
  · exact hspan hm nofun fun _ => hcorrupt nofun
  · cases hlist : asArticleList cached with
    | none =>
      simp only [hlist]
      refine hdelete (fun articles he => ?_) fun t2 h2 hu => hspan h2 nofun fun _ => hu
      obtain rfl := Option.some.inj (Except.ok.inj he)
      have : asArticleList articles.value = some articles := by
        rw [asArticleList, dif_pos articles.isList]
      rw [this] at hlist
      cases hlist
    | some articles =>
      simp only [hlist]
      exact hspan hm nofun nofun

theorem wp_writeArticles_ordered {articles : ArticleList} {ttlSec : Nat}
    {ws : List (JsString × Json × Nat)} (hp : t.state.lo.provider = some (.ok articles))
    (hw : t.state.lo.writes = ws)
    (hnext : ∀ {lo : Local}, lo.provider = some (.ok articles) →
      lo.writes = (k, articles.value, ttlSec) :: ws → InOrder settings key lo) :
    (jobHost settings honest).posted.wp (cacheContract settings key)
      (writeArticles k articles ttlSec).run
      (fun r t' => r = .ok () ∧ t'.state.lo.provider = some (.ok articles) ∧
        t'.state.lo.writes = (k, articles.value, ttlSec) :: ws ∧ NoDelete t'.log) t := by
  have hissue : (issue (.storeSet k articles.value ttlSec) t.state).lo.writes =
      (k, articles.value, ttlSec) :: ws := by rw [← hw]; rfl
  refine wp_withSpan_posted ?_
  rw [Host.wp_run_tryCatch]
  refine wp_await_posted (c := .storeSet k articles.value ttlSec) rfl
    ⟨hnext hp hissue, .inl (noDelete_sent nofun)⟩ fun t1 h1 _ r v hr => ?_
  have hm := h1.1.trans (reply_meanwhile hr)
  have hp1 : v.lo.provider = some (.ok articles) := hm.provider.trans hp
  have hw1 : v.lo.writes = (k, articles.value, ttlSec) :: ws := hm.writes.trans hissue
  have hend : ∀ log : Log, (cacheContract settings key).inv ⟨v, .sent .tick v :: log⟩ ∧
      ∀ t2, (cacheContract settings key).rely ⟨v, .sent .tick v :: log⟩ t2 →
        (cacheContract settings key).inv t2 →
        (.ok () : Except JsError Unit) = .ok () ∧ t2.state.lo.provider = some (.ok articles) ∧
          t2.state.lo.writes = (k, articles.value, ttlSec) :: ws ∧
          NoDelete (.answered .tick () t2.state :: t2.log) := fun log =>
    ⟨⟨hnext hp1 hw1, .inl (noDelete_sent nofun)⟩, fun t2 h2 _ =>
      ⟨rfl, h2.1.provider.trans hp1, h2.1.writes.trans hw1, noDelete_answered⟩⟩
  cases r with
  | error e => exact hend _
  | ok _ => exact hend _

/-- The writes so far, and the outcome. -/
structure Concluded {α : Type} (settings : Settings) (key : JsString) (r : Except JsError α)
    (t : Scene) : Prop where
  writes : InOrder settings key t.state.lo
  quiet : NoDelete t.log
  excused : Excused key r t

theorem Concluded.orderly {r : Except JsError α} (h : Concluded settings key r t) :
    Orderly settings key t :=
  ⟨h.writes, .inl h.quiet⟩

theorem Concluded.rely {r : Except JsError α} (h : Concluded settings key r t)
    (hr : (cacheContract settings key).rely t t') : Concluded settings key r t' := by
  refine ⟨h.writes.congr hr.1.provider hr.1.writes, by rw [hr.2]; exact h.quiet, fun e he => ?_⟩
  rw [hr.2]
  exact h.excused e he

theorem Concluded.cons {r : Except JsError α} {v : View} (h : Concluded settings key r t)
    (hv : Meanwhile t.state v) (ha : NoDelete (a :: t.log)) :
    Concluded settings key r ⟨v, a :: t.log⟩ :=
  ⟨h.writes.congr hv.provider hv.writes, ha, h.excused.cons⟩

theorem Concluded.map {r : Except JsError α} {β : Type} (f : α → β)
    (h : Concluded settings key r t) : Concluded settings key (r.map f) t := by
  refine ⟨h.writes, h.quiet, fun e he => ?_⟩
  cases r with
  | ok x => cases he
  | error e' => exact h.excused e (congrArg Except.error (Except.error.inj he))

/-- What a load settled with, as the outcome of the coordination. -/
theorem Concluded.sourced {r : Except JsError ArticleSearchResult} (source : Source)
    (h : Concluded settings key r t) : Concluded settings key
      (r.map fun value => (⟨value, source⟩ : CacheMissCoordinationResult ArticleSearchResult)) t :=
  h.map _

theorem Calm.aborted (h : Calm t) :
    Concluded settings key (.error .requestAborted : Except JsError α) t :=
  ⟨.unwritten h.idle.writes, h.quiet, excused_aborted rfl⟩

theorem wp_staleFallback_concluded {err : JsError} (hw : t.state.lo.writes = []) :
    (jobHost settings honest).posted.wp (cacheContract settings key) (staleFallback key err).run
      (Concluded settings key) t := by
  refine wp_withSpan_posted ?_
  rw [Host.wp_run_bind]
  refine Host.wp_mono (wp_readArticles_looked (.inr rfl) hw) fun r t1 h1 => ?_
  have hw1 : t1.state.lo.writes = [] := h1.grows.writes.trans hw
  have hend : ∀ {r : Except JsError ArticleSearchResult}, Excused key r t1 →
      (cacheContract settings key).inv ⟨t1.state, .sent .tick t1.state :: t1.log⟩ ∧
        ∀ t2, (cacheContract settings key).rely ⟨t1.state, .sent .tick t1.state :: t1.log⟩ t2 →
          (cacheContract settings key).inv t2 →
          Concluded settings key r ⟨t2.state, .answered .tick () t2.state :: t2.log⟩ := by
    intro r hr
    have hsent : Concluded settings key r ⟨t1.state, .sent .tick t1.state :: t1.log⟩ :=
      ⟨.unwritten hw1, noDelete_sent nofun, hr.cons⟩
    exact ⟨hsent.orderly, fun t2 h2 _ => (hsent.rely h2).cons (.refl _) noDelete_answered⟩
  rcases r with e | _ | stale
  · exact absurd rfl (h1.returns e)
  · exact hend fun _ _ => .inr (h1.unserved rfl)
  · exact hend Excused.ok

theorem wp_loadArticlesFromUpstream_concluded {options : ArticleSearchOptions} (ht : Calm t) :
    (jobHost settings honest).posted.wp (cacheContract settings key)
      (loadArticlesFromUpstream settings platform options key).run
      (Concluded settings key) t := by
  rw [loadArticlesFromUpstream, Host.wp_run_bind, Host.wp_run_attempt]
  apply Host.wp_mono (wp_searchProvider_fetched ht)
  intro r t1 h1
  rw [Host.afterOk_ok]
  cases r with
  | error err =>
    refine wp_ask_posted rfl ?_
    split
    · exact ⟨.unwritten h1.writes, h1.quiet, excused_aborted rfl⟩
    · exact wp_staleFallback_concluded h1.writes
  | ok articles =>
    have hp := h1.provider articles rfl
    simp only [Host.wp_run_bind, writeCachedArticles]
    refine Host.wp_mono (wp_writeArticles_ordered hp h1.writes (.fresh articles)) ?_
    intro r t2 h2
    obtain ⟨rfl, hp2, hw2, -⟩ := h2
    rw [Host.afterOk_ok]
    refine Host.wp_mono (wp_writeArticles_ordered hp2 hw2 (.both articles)) ?_
    intro r t3 h3
    obtain ⟨rfl, hp3, hw3, hquiet⟩ := h3
    exact ⟨.both articles hp3 hw3, hquiet, Excused.ok⟩

/-! ## Coordinating -/

/-- A command that neither writes nor deletes. -/
theorem wp_calm {c : Command} {Q : Reply c → Scene → Prop} (hn : now settings c t.state = none)
    (hissue : issue c t.state = t.state) (hc : ∀ k, c ≠ .storeDelete k) (ht : Calm t)
    (hq : ∀ v r t', reply honest c r v = some t'.state → Calm t' → Q r t') :
    (jobHost settings honest).posted.wp (cacheContract settings key) (command c) Q t := by
  have hsent : Calm ⟨issue c t.state, .sent c t.state :: t.log⟩ :=
    ⟨by rw [hissue]; exact ht.idle, noDelete_sent hc⟩
  refine wp_await_posted hn hsent.orderly fun t1 h1 _ r v hr => ?_
  refine hq t1.state r _ hr ⟨(hsent.rely h1).idle.grows (reply_meanwhile hr).toGrows, ?_⟩
  exact noDelete_answered

/-- A read of the fresh entry by a coordination. -/
theorem wp_readFresh_calm {Q : Except JsError (Option ArticleSearchResult) → Scene → Prop}
    (ht : Calm t) (hq : ∀ r t', Calm t' → (∀ e, r ≠ .error e) → Q r t') :
    (jobHost settings honest).posted.wp (cacheContract settings key)
      (readCachedArticles key).run Q t :=
  Host.wp_mono (wp_readArticles_looked (.inl rfl) ht.idle.writes) fun r t1 h1 =>
    hq r t1 ⟨ht.idle.grows h1.grows, h1.quiet⟩ h1.returns

def postedFlag (settings : Settings) (honest : Bool) (key : JsString) (leases : Bool) :
    AbortFlag (jobHost settings honest).posted (cacheContract settings key)
      (coordinatorRuntime leases) where
  aborted t := t.state.lo.client
  wp_aborted _ _ hq := Host.wp_posted_now rfl hq

def cacheOutline (settings : Settings) (platform : Platform) (honest : Bool)
    (options : ArticleSearchOptions) (key lease owner : JsString) (waitDeadline : Nat) :
    Outline (postedFlag settings honest key true) settings leaseStore lease owner waitDeadline
      (readCachedArticles key) (loadArticlesFromUpstream settings platform options key)
      (Concluded settings key) where
  idle := Calm
  asking := Calm
  loose := Calm
  held := Calm
  ready := Calm
  beating := Calm
  loaded r := Concluded settings key r
  closing r := Concluded settings key r
  refused := Calm
  waiting := Calm
  idle_inv _ h := ⟨h.orderly, trivial⟩
  idle_stable _ _ h hr _ := h.rely hr
  enter t h := by
    split
    · exact h.aborted
    · exact h
  acquire t h := by
    refine wp_calm (c := .tryAcquireLease lease owner settings.cacheLeaseTtlMs) rfl rfl nofun h
      fun v r t1 _ h1 => unlessAborted_intro (fun _ => h1.aborted) ?_
    rcases r with e | _ | _ <;> exact h1
  loadLoose t h := by
    apply Host.wp_mono (wp_loadArticlesFromUpstream_concluded h)
    intro r t1 h1
    have := h1.sourced .upstream
    cases r <;> exact this
  recheck t h := by
    refine wp_readFresh_calm h fun r t1 h1 hr => unlessAborted_intro (fun _ => h1.aborted) ?_
    rcases r with e | _ | result
    · exact h1
    · exact h1
    · exact ⟨h1.orderly.writes, h1.quiet, Excused.ok⟩
  beat t h := Host.wp_posted_now rfl ⟨⟨h.idle.provider, h.idle.writes⟩, h.quiet⟩
  loadHeld t h := wp_loadArticlesFromUpstream_concluded h
  stop r t h := by
    have hend := h.sourced .upstream
    exact Host.wp_posted_now rfl ⟨hend.writes.congr rfl rfl, hend.quiet, hend.excused⟩
  release r t h := by
    have hsent : Concluded settings key r
        ⟨t.state, .sent (.releaseLease lease owner) t.state :: t.log⟩ :=
      h.cons (.refl _) (noDelete_sent nofun)
    refine wp_await_posted (c := .releaseLease lease owner) rfl hsent.orderly
      fun t1 h1 _ r' v hr => ?_
    exact (hsent.rely h1).cons (reply_meanwhile hr) noDelete_answered
  poll t h := by
    refine wp_readFresh_calm h fun r t1 h1 hr => unlessAborted_intro (fun _ => h1.aborted) ?_
    rcases r with e | _ | result
    · exact absurd rfl (hr e)
    · exact h1
    · exact ⟨h1.orderly.writes, h1.quiet, Excused.ok⟩
  clock t h := Host.wp_posted_now (s := t.state) rfl (by split <;> exact h)
  jitter t h := Host.wp_posted_now rfl ⟨⟨h.idle.provider, h.idle.writes⟩, h.quiet⟩
  doze delayMs t h := by
    split
    · exact h.aborted
    · refine wp_calm (c := .sleep delayMs .client) rfl rfl nofun h fun v r t1 hr h1 => ?_
      rcases r with e | ⟨⟩
      · cases e with
        | requestAborted => exact h1.aborted
        | _ => cases hr
      · exact h1

theorem wp_coordination_concluded {leases : Bool} {options : ArticleSearchOptions} (ht : Calm t) :
    (jobHost settings honest).posted.wp (cacheContract settings key)
      (coordinateCacheMiss (coordinatorRuntime leases) settings platform key
        (readCachedArticles key) (loadArticlesFromUpstream settings platform options key)).run
      (Concluded settings key) t := by
  cases leases with
  | true =>
    refine wp_coordinateCacheMiss (postedFlag settings honest key true) rfl ?_
    split
    · exact ht.aborted
    · refine Host.wp_posted_now (s := t.state) rfl (Host.wp_posted_now (s := t.state) rfl ?_)
      exact ⟨cacheOutline settings platform honest options _ _ _ _, ht⟩
  | false =>
    refine wp_coordinateCacheMiss_bypassed (postedFlag settings honest key false) rfl ?_
    split
    · exact ht.aborted
    · apply Host.wp_mono (wp_loadArticlesFromUpstream_concluded ht)
      intro r t1 h1
      have := h1.sourced .bypassed
      cases r <;> exact this

/-- The upstream work of a search, from its first step. -/
theorem wp_fetchArticlesFromUpstream_concluded (settings : Settings) (platform : Platform)
    (honest leases : Bool) (options : ArticleSearchOptions) (key : JsString) (ht : Calm t) :
    (jobHost settings honest).posted.wp (cacheContract settings key)
      (fetchArticlesFromUpstream settings platform leases options key).run
      (fun r t => Orderly settings key t ∧ Excused key r t) t := by
  rw [fetchArticlesFromUpstream, Host.wp_run_bind]
  refine Host.wp_mono (wp_coordination_concluded ht) fun r t1 h1 => ?_
  rcases r with e | ⟨value, _ | _ | _⟩
  · refine ⟨h1.orderly, fun e' he => ?_⟩
    cases he
    exact h1.excused e rfl
  · exact ⟨h1.orderly, Excused.ok⟩
  · exact ⟨h1.orderly, Excused.ok⟩
  · exact ⟨h1.orderly, Excused.ok⟩

end NewsApi.Services
