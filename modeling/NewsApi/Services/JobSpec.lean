import NewsApi.Cache.CoordinatorOutline
import NewsApi.Runtime.JobHost
import NewsApi.Services.NewsService

/-! # What the upstream work of a search settles with

The outcome of `fetchArticlesFromUpstream`, for every behaviour of the cache
store, the leases and the provider: where the articles come from, which error
is thrown, and what is written to the cache. The provider call is recorded, so
an outcome can be compared with it. -/
namespace NewsApi.Services
open NewsApi.Async NewsApi.Text NewsApi.Types NewsApi.Config NewsApi.Errors NewsApi.Cache
open NewsApi.Runtime NewsApi.Providers

/-! ## What may happen meanwhile -/

/-- What is kept of a search from one of its states to a later one. -/
structure Grows (v v' : View) : Prop where
  provider : v'.lo.provider = v.lo.provider
  writes : v'.lo.writes = v.lo.writes
  reads : ∀ r ∈ v.lo.reads, r ∈ v'.lo.reads
  client : v.lo.client = true → v'.lo.client = true
  shutdown : v.sh.shutdown = true → v'.sh.shutdown = true

/-- What may happen to a search while it is suspended. -/
structure Meanwhile (v v' : View) : Prop extends Grows v v' where
  deadline : v.lo.deadline = true → v'.lo.deadline = true

theorem Grows.refl (v : View) : Grows v v := ⟨rfl, rfl, fun _ => id, id, id⟩

theorem Grows.trans {v v' v'' : View} (h : Grows v v') (h' : Grows v' v'') : Grows v v'' where
  provider := h'.provider.trans h.provider
  writes := h'.writes.trans h.writes
  reads r := h'.reads r ∘ h.reads r
  client := h'.client ∘ h.client
  shutdown := h'.shutdown ∘ h.shutdown

theorem Meanwhile.refl (v : View) : Meanwhile v v := ⟨Grows.refl v, id⟩

theorem Meanwhile.trans {v v' v'' : View} (h : Meanwhile v v') (h' : Meanwhile v' v'') :
    Meanwhile v v'' :=
  ⟨h.toGrows.trans h'.toGrows, h'.deadline ∘ h.deadline⟩

theorem Meanwhile.request {v v' : View} (h : Meanwhile v v')
    (ha : v.aborted .request = true) : v'.aborted .request = true := by
  simp only [View.aborted, Bool.or_eq_true] at ha ⊢
  exact ha.imp (.imp h.client h.shutdown) h.deadline

/-- What was written is what the provider returned, under the keys of the search. -/
def Justified (key : JsString) (v : View) : Prop :=
  ∀ w ∈ v.lo.writes, (w.1 = key ∨ w.1 = staleCacheKey key) ∧
    ∃ articles, v.lo.provider = some (.ok articles) ∧ w.2.1 = articles.value

/-- Before the provider call has settled nothing has been written. -/
structure Idle (v : View) : Prop where
  provider : v.lo.provider = none
  writes : v.lo.writes = []

theorem Idle.grows {v v' : View} (h : Idle v) (hg : Grows v v') : Idle v' :=
  ⟨hg.provider.trans h.provider, hg.writes.trans h.writes⟩

/-- Loops are left before the provider has settled. -/
def jobContract (key : JsString) : Contract View where
  inv := Justified key
  rely := Meanwhile
  atLoop v := v.lo.provider = none
  rely_refl := .refl
  rely_trans := .trans

/-- A lookup neither calls the provider nor writes. -/
def lookupContract : Contract View where
  inv := Idle
  rely := Meanwhile
  atLoop _ := False
  rely_refl := .refl
  rely_trans := .trans

theorem Justified.grows {key : JsString} {v v' : View} (h : Justified key v) (hg : Grows v v') :
    Justified key v' := by
  unfold Justified
  rw [hg.writes, hg.provider]
  exact h

/-- A contract under which the cache can be read. -/
structure Readable (K : Contract View) : Prop where
  rely : ∀ {v v' : View}, K.rely v v' → Meanwhile v v'
  grows : ∀ {v v' : View}, K.inv v → Grows v v' → K.inv v'

theorem readable_job (key : JsString) : Readable (jobContract key) := ⟨id, Justified.grows⟩

theorem readable_lookup : Readable lookupContract := ⟨id, Idle.grows⟩

/-- Commands that neither write nor settle the provider call nor set the deadline. -/
def Quiet : Command → Prop
  | .storeSet _ _ _ | .providerSettled _ | .createAbortDeadline _ => False
  | _ => True

variable {settings : Settings} {platform : Platform} {honest : Bool} {key : JsString}
  {K : Contract View} {c : Command} {v v' : View}

theorem reply_meanwhile {r : Reply c} (h : reply honest c r v = some v') : Meanwhile v v' := by
  unfold reply at h
  split at h
  · cases h; exact ⟨⟨rfl, rfl, fun _ => List.mem_cons_of_mem _, id, id⟩, id⟩
  · split at h
    · split at h <;> cases h
      exact .refl _
    · cases h
  · split at h <;> cases h
    exact .refl _
  · cases h; exact .refl _

theorem issue_quiet (hc : Quiet c) : issue c v = v := by
  cases c <;> first | exact hc.elim | rfl

/-- The rule of a quiet command that suspends the search. -/
theorem wp_quiet {Q : Reply c → View → Prop} (hK : Readable K)
    (hn : now settings c v = none) (hc : Quiet c) (hi : K.inv v)
    (hq : ∀ v1 r v2, Meanwhile v v1 → reply honest c r v1 = some v2 → Meanwhile v v2 → Q r v2) :
    (jobHost settings honest).wp K (command c) Q v := by
  have hissue : (jobHost settings honest).issue c v = v := issue_quiet hc
  refine Host.wp_wait hn (by rw [hissue]; exact hi) fun v1 h1 _ r v2 h2 => ?_
  rw [hissue] at h1
  exact hq v1 r v2 (hK.rely h1) h2 ((hK.rely h1).trans (reply_meanwhile h2))

/-! ## Reading the cache -/

/-- A read returns nothing, or what it found under its key. -/
def ReadPost (key : JsString) (cache : ArticleSearchCacheStatus) :
    Except JsError (Option ArticleSearchResult) → View → Prop
  | .error _, _ => False
  | .ok none, _ => True
  | .ok (some result), v => result.cache = cache ∧ (key, result.articles.value) ∈ v.lo.reads

theorem ReadPost.grows {k : JsString} {cache : ArticleSearchCacheStatus}
    {r : Except JsError (Option ArticleSearchResult)} (h : ReadPost k cache r v)
    (hg : Grows v v') : ReadPost k cache r v' := by
  rcases r with e | _ | result
  · exact h
  · exact h
  · exact h.imp_right (hg.reads _)

theorem wp_deleteCorruptCacheEntry {k : JsString} {Q : Except JsError Unit → View → Prop}
    (hK : Readable K) (hi : K.inv v) (hq : ∀ v', Meanwhile v v' → Q (.ok ()) v') :
    (jobHost settings honest).wp K (deleteCorruptCacheEntry k).run Q v := by
  rw [deleteCorruptCacheEntry, Host.wp_run_tryCatch]
  refine wp_quiet hK (c := .storeDelete k) rfl trivial hi fun v1 r v2 _ _ h2 => ?_
  rcases r with e | ⟨⟩ <;> exact hq v2 h2

/-- The lookup of an entry never throws. -/
theorem wp_readArticles {k : JsString} {cache : ArticleSearchCacheStatus} (hK : Readable K)
    (hi : K.inv v) : (jobHost settings honest).wp K (readArticles k cache).run
      (fun r v' => Grows v v' ∧ ReadPost k cache r v') v := by
  have hspan : ∀ {r : Except JsError (Option ArticleSearchResult)} {v1 : View}, Meanwhile v v1 →
      ReadPost k cache r v1 → K.inv v1 ∧ ∀ v2, K.rely v1 v2 →
        K.inv v2 → Grows v v2 ∧ ReadPost k cache r v2 := fun h1 hr =>
    ⟨hK.grows hi h1.toGrows, fun v2 h2 _ =>
      ⟨h1.toGrows.trans (hK.rely h2).toGrows, hr.grows (hK.rely h2).toGrows⟩⟩
  refine wp_withSpan ?_
  rw [Host.wp_run_bind, Host.wp_run_attempt]
  refine wp_quiet hK (c := .storeGet k) rfl trivial hi fun v1 r v2 _ hr h2 => ?_
  rw [Host.afterOk_ok]
  rcases r with err | _ | cached
  · cases hc : isCacheCorruptionError err
    · simp only [hc]
      exact hspan h2 trivial
    · simp only [hc, if_true, Host.wp_run_bind]
      exact wp_deleteCorruptCacheEntry hK (hK.grows hi h2.toGrows) fun v3 h3 =>
        hspan (h2.trans h3) trivial
  · exact hspan h2 trivial
  · cases hr
    cases hlist : asArticleList cached with
    | none =>
      simp only [hlist, Host.wp_run_bind]
      exact wp_deleteCorruptCacheEntry hK (hK.grows hi h2.toGrows) fun v3 h3 =>
        hspan (h2.trans h3) trivial
    | some articles =>
      simp only [hlist]
      refine hspan h2 ⟨rfl, ?_⟩
      rw [asArticleList_value hlist]
      exact List.mem_cons_self

/-! ## The provider call -/

theorem Idle.justified (h : Idle v) : Justified key v := by
  unfold Justified
  rw [h.writes]
  exact nofun

/-- A cancellation is thrown only once the combined signal has been aborted. -/
def Canceled (honest : Bool) (e : JsError) (v : View) : Prop :=
  isRequestAbortedError e = true → honest = true → v.aborted .request = true

theorem Canceled.meanwhile {e : JsError} (h : Canceled honest e v) (hm : Meanwhile v v') :
    Canceled honest e v' :=
  fun he hh => hm.request (h he hh)

def CanceledPost {α : Type} (honest : Bool) (r : Except JsError α) (v : View) : Prop :=
  Idle v ∧ ∀ e, r = .error e → Canceled honest e v

theorem canceledPost_ok {α : Type} {a : α} (h : Idle v) :
    CanceledPost honest (.ok a : Except JsError α) v :=
  ⟨h, nofun⟩

theorem canceledPost_error {α : Type} {e : JsError} (h : Idle v) (hc : Canceled honest e v) :
    CanceledPost honest (.error e : Except JsError α) v :=
  ⟨h, fun _ he => Except.error.inj he ▸ hc⟩

theorem wp_throwIfAborted_request (hv : Idle v) :
    (jobHost settings honest).wp (jobContract key) (Runtime.throwIfAborted .request).run
      (CanceledPost honest) v := by
  refine wp_throwIfAborted ?_
  split
  · rename_i hab
    exact canceledPost_error hv fun _ _ => hab
  · exact canceledPost_ok hv

theorem wp_retrySleep {delayMs : Nat} (hv : Idle v) :
    (jobHost settings honest).wp (jobContract key)
      (withSpan (Runtime.sleep delayMs .request)).run (CanceledPost honest) v := by
  refine wp_withSpan ?_
  rw [Runtime.sleep, Host.wp_run_bind]
  have hspan : ∀ {r : Except JsError Unit} {v1 : View}, CanceledPost honest r v1 →
      (jobContract key).inv v1 ∧ ∀ v2, (jobContract key).rely v1 v2 → (jobContract key).inv v2 →
        CanceledPost honest r v2 := fun h =>
    ⟨h.1.justified, fun v2 h2 _ => ⟨h.1.grows h2.toGrows, fun e he => (h.2 e he).meanwhile h2⟩⟩
  refine Host.wp_mono (wp_throwIfAborted_request hv) ?_
  rintro (e | ⟨⟩) v1 h1
  · exact hspan h1
  · rw [Host.afterOk_ok]
    refine wp_quiet (readable_job key) (c := .sleep delayMs .request) rfl trivial h1.1.justified
      fun v2 r v3 _ hr h3 => hspan ?_
    have hidle := h1.1.grows h3.toGrows
    rcases r with e | ⟨⟩
    · cases e with
      | requestAborted =>
        simp only [reply] at hr
        split at hr
        · rename_i hab
          cases hr
          exact canceledPost_error hidle fun _ _ => hab
        · cases hr
      | _ => cases hr
    · exact canceledPost_ok hidle

theorem wp_afterFailedAttempt {attempt : Nat} {err : JsError} {T : Type} (hv : Idle v)
    (herr : Canceled honest err v) :
    (jobHost settings honest).wp (jobContract key)
      (afterFailedAttempt (T := T) settings .request attempt err).run (CanceledPost honest) v := by
  refine wp_ask rfl ?_
  split
  · rename_i hab
    refine canceledPost_error hv fun _ hh => ?_
    rcases Bool.or_eq_true_iff.mp hab with hab | hab
    · exact hab
    · exact herr hab hh
  · rename_i hab
    split
    · refine canceledPost_error hv fun he => ?_
      simp [he] at hab
    · refine wp_ask rfl ?_
      rw [Host.wp_run_bind]
      refine Host.wp_mono (wp_retrySleep ⟨hv.provider, hv.writes⟩) ?_
      rintro (e | ⟨⟩) v1 h1
      · exact canceledPost_error h1.1 (h1.2 e rfl)
      · exact canceledPost_ok h1.1

theorem wp_withUpstreamRetries {options : ArticleSearchOptions} (hv : Idle v) :
    (jobHost settings honest).wp (jobContract key)
      (withUpstreamRetries settings (axiosGet settings options) .request).run
      (CanceledPost honest) v := by
  refine Host.wp_run_loop (fun _ => Idle) hv (fun _ v h => ⟨h.justified, h.provider⟩)
    (fun _ v v' h hm _ => h.grows hm.toGrows) fun attempt v hv => ?_
  rw [Host.wp_run_tryCatch, Host.wp_run_bind]
  have hretry : ∀ {e : JsError} {v : View}, Idle v → Canceled honest e v →
      (jobHost settings honest).wp (jobContract key)
        (afterFailedAttempt (T := Json) settings .request attempt e).run
        (Host.roundOutcome (fun _ => Idle) (CanceledPost honest)) v := by
    intro e v hv he
    refine Host.wp_mono (wp_afterFailedAttempt hv he) ?_
    rintro (e | n | data) v1 h1
    · exact canceledPost_error h1.1 (h1.2 e rfl)
    · exact h1.1
    · exact canceledPost_ok h1.1
  refine Host.wp_mono (wp_throwIfAborted_request hv) ?_
  rintro (e | ⟨⟩) v1 h1
  · exact hretry h1.1 (h1.2 e rfl)
  · rw [Host.afterOk_ok, Host.wp_run_bind]
    refine wp_quiet (readable_job key) (c := .axiosGet (toProviderParams settings options)) rfl
      trivial h1.1.justified fun v2 r v3 _ hr h3 => ?_
    have hidle := h1.1.grows h3.toGrows
    rcases r with e | data
    · simp only [reply] at hr
      split at hr
      · cases hr
      · rename_i hcond
        cases hr
        refine hretry hidle fun he hh => ?_
        simpa [he, hh] using hcond
    · exact canceledPost_ok hidle

/-- A cancellation is thrown as such, and only for the client or the shutdown. -/
def SearchPost (honest : Bool) (r : Except JsError ArticleList) (v : View) : Prop :=
  Idle v ∧ ∀ e, r = .error e → isRequestAbortedError e = true →
    e = .requestAborted ∧ (honest = true → v.lo.client = true ∨ v.sh.shutdown = true)

theorem SearchPost.meanwhile {r : Except JsError ArticleList} (h : SearchPost honest r v)
    (hm : Meanwhile v v') : SearchPost honest r v' :=
  ⟨h.1.grows hm.toGrows, fun e he hc =>
    (h.2 e he hc).imp_right fun ha hh => (ha hh).imp hm.client hm.shutdown⟩

theorem searchPost_error {e : JsError} (h : Idle v) (hc : isRequestAbortedError e = false) :
    SearchPost honest (.error e) v :=
  ⟨h, fun _ he hc' => by rw [← Except.error.inj he, hc] at hc'; cases hc'⟩

theorem mapAxiosError_not_aborted {now : Nat} {error : AxiosError} :
    isRequestAbortedError (mapAxiosError platform now error) = false := by
  unfold mapAxiosError
  split
  · rfl
  · split <;> rfl

theorem normalizeArticles_not_aborted {data : Json} {e : JsError}
    (h : normalizeArticles data = .error e) : isRequestAbortedError e = false := by
  unfold normalizeArticles at h
  split at h
  · cases h; rfl
  · split at h
    · cases h; rfl
    · split at h <;> cases h
      rfl

theorem wp_requestArticles_canceled {options : ArticleSearchOptions} (hv : Idle v) :
    (jobHost settings honest).wp (jobContract key) (requestArticles settings options).run
      (CanceledPost honest) v := by
  rw [requestArticles, Host.wp_run_bind]
  refine Host.wp_mono (wp_withUpstreamRetries hv) ?_
  rintro (e | data) v1 h1
  · exact canceledPost_error h1.1 (h1.2 e rfl)
  · rw [Host.afterOk_ok, Host.wp_run_bind]
    refine Host.wp_mono (wp_throwIfAborted_request h1.1) ?_
    rintro (e | ⟨⟩) v2 h2
    · exact canceledPost_error h2.1 (h2.2 e rfl)
    · rw [Host.afterOk_ok, Host.wp_run_bind, Host.wp_run_ofExcept]
      cases hn : normalizeArticles data with
      | error e =>
        refine canceledPost_error h2.1 fun he => ?_
        rw [normalizeArticles_not_aborted hn] at he
        cases he
      | ok articles => exact wp_ask rfl (canceledPost_ok ⟨h2.1.provider, h2.1.writes⟩)

theorem wp_rethrow_canceled {err : JsError} (hv : Idle v) :
    isRequestAbortedError err = false → (jobHost settings honest).wp (jobContract key)
      (match err with
        | .axios error => do throw (mapAxiosError platform (← ask .dateNow) error)
        | err => throw err : Job ArticleList).run (SearchPost honest) v := by
  intro he
  cases err with
  | axios error => exact wp_ask rfl (searchPost_error hv mapAxiosError_not_aborted)
  | _ => exact searchPost_error hv he

theorem wp_settleFailure_canceled {err : JsError} {st : CircuitRequestState} (hv : Idle v)
    (herr : Canceled honest err v) :
    (jobHost settings honest).wp (jobContract key) (settleFailure platform st err).run
      (SearchPost honest) v := by
  refine wp_ask rfl (wp_ask rfl (wp_ask rfl ?_))
  simp only []
  split
  · exact wp_ask rfl (wp_ask rfl
      (searchPost_error ⟨hv.provider, hv.writes⟩ mapAxiosError_not_aborted))
  · rename_i hdeadline
    refine wp_ask rfl ?_
    split
    · rename_i hab
      refine wp_ask rfl ⟨⟨hv.provider, hv.writes⟩, fun e he _ => ⟨(Except.error.inj he).symm, ?_⟩⟩
      intro hh
      have hreq : v.aborted .request = true := by
        rcases Bool.or_eq_true_iff.mp hab with hab | hab
        · exact hab
        · exact herr hab hh
      -- not the deadline alone
      show v.lo.client = true ∨ v.sh.shutdown = true
      revert hreq hdeadline
      simp only [View.aborted]
      cases v.lo.client <;> cases v.sh.shutdown <;> cases v.lo.deadline <;> simp
    · rename_i hab
      have he : isRequestAbortedError err = false := by
        simpa using (not_or.mp (mt Bool.or_eq_true_iff.mpr hab)).2
      split
      · exact wp_ask rfl (wp_rethrow_canceled ⟨hv.provider, hv.writes⟩ he)
      · split
        · exact wp_ask rfl (wp_rethrow_canceled ⟨hv.provider, hv.writes⟩ he)
        · exact wp_rethrow_canceled hv he

theorem wp_search_canceled {options : ArticleSearchOptions} (hv : Idle v) :
    (jobHost settings honest).wp (jobContract key) (search settings platform options).run
      (SearchPost honest) v := by
  refine wp_ask rfl ?_
  rw [Host.wp_run_withFinally]
  suffices h : ∀ v : View, Idle v → v.lo.deadline = false →
      (jobHost settings honest).wp (jobContract key)
        (do
          Runtime.throwIfAborted .request
          let circuitState ← withSpan do AsyncM.ofExcept (← ask .assertCircuitAllowsRequest)
          withSpan (tryCatch (requestArticles settings options)
            (settleFailure platform circuitState)) : Job ArticleList).run (SearchPost honest) v by
    refine Host.wp_mono (h _ ⟨hv.provider, hv.writes⟩ rfl) fun r v1 h1 => ?_
    exact ⟨⟨h1.1.provider, h1.1.writes⟩, h1.2⟩
  intro v hv hdeadline
  have hspan : ∀ {r : Except JsError ArticleList} {v1 : View}, SearchPost honest r v1 →
      (jobContract key).inv v1 ∧ ∀ v2, (jobContract key).rely v1 v2 → (jobContract key).inv v2 →
        SearchPost honest r v2 := fun h =>
    ⟨h.1.justified, fun v2 h2 _ => h.meanwhile h2⟩
  rw [Host.wp_run_bind]
  refine wp_throwIfAborted ?_
  split
  · rename_i hab
    refine ⟨hv, fun e he _ => ⟨(Except.error.inj he).symm, fun _ => ?_⟩⟩
    simpa [View.aborted, hdeadline] using hab
  · rw [Host.afterOk_ok, Host.wp_run_bind]
    obtain ⟨p, hp⟩ : ∃ p, assertCircuitAllowsRequest settings v.sh.clock v.sh.circuit = p :=
      ⟨_, rfl⟩
    have hn : now settings .assertCircuitAllowsRequest v =
        some (p.1, v.circuitStep (.check p.1) p.2) := by rw [← hp]; rfl
    have hcheck : Idle (v.circuitStep (.check p.1) p.2) := ⟨hv.provider, hv.writes⟩
    refine wp_withSpan (wp_ask hn ⟨?_, fun v1 hm _ => ?_⟩)
    · exact hcheck.justified
    · have h1 : Idle v1 := hcheck.grows hm.toGrows
      obtain ⟨r, circuit⟩ := p
      cases r with
      | error e =>
        obtain ⟨-, rfl⟩ := assert_error hp
        exact searchPost_error h1 rfl
      | ok st =>
        rw [Host.afterOk_ok]
        refine wp_withSpan ?_
        rw [Host.wp_run_tryCatch]
        refine Host.wp_mono (wp_requestArticles_canceled h1) ?_
        rintro (err | articles) v2 h2
        · refine Host.wp_mono (wp_settleFailure_canceled h2.1 (h2.2 err rfl)) fun r v3 h3 => ?_
          exact hspan h3
        · exact hspan ⟨h2.1, nofun⟩

/-! ## Loading -/

/-- Why a search may fail: its signal was aborted, or the provider call failed
with that error; a cancellation by the provider is the shutdown's. -/
def Rejected (honest : Bool) (e : JsError) (v : View) : Prop :=
  v.lo.client = true ∨ v.lo.provider = some (.error e) ∧
    (honest = true → isRequestAbortedError e = true → v.sh.shutdown = true)

/-- What a load settles with. -/
def LoadOutcome (honest : Bool) (key : JsString) (r : Except JsError ArticleSearchResult)
    (v : View) : Prop :=
  match r with
  | .ok ⟨articles, .miss⟩ => v.lo.provider = some (.ok articles)
  | .ok ⟨articles, .stale⟩ => (∃ e, v.lo.provider = some (.error e)) ∧
      (staleCacheKey key, articles.value) ∈ v.lo.reads
  | .ok _ => False
  | .error e => Rejected honest e v

theorem Rejected.grows {e : JsError} (h : Rejected honest e v) (hg : Grows v v') :
    Rejected honest e v' :=
  h.imp hg.client fun h => ⟨hg.provider.trans h.1, fun hh he => hg.shutdown (h.2 hh he)⟩

theorem LoadOutcome.grows {r : Except JsError ArticleSearchResult}
    (h : LoadOutcome honest key r v) (hg : Grows v v') : LoadOutcome honest key r v' := by
  rcases r with e | ⟨articles, _ | _ | _ | _⟩
  · exact Rejected.grows h hg
  · exact h
  · exact hg.provider.trans h
  · exact h
  · exact ⟨h.1.imp fun e he => hg.provider.trans he, hg.reads _ h.2⟩

/-- The provider call is over and nothing has been written yet. -/
def ProviderPost (honest : Bool) : Except JsError ArticleList → View → Prop
  | .ok articles, v => v.lo.writes = [] ∧ v.lo.provider = some (.ok articles)
  | .error e, v => v.lo.writes = [] ∧ (v.lo.client = true ∨ v.lo.provider = some (.error e) ∧
      (isRequestAbortedError e = true → e = .requestAborted ∧
        (honest = true → v.lo.client = true ∨ v.sh.shutdown = true)))

theorem wp_searchProvider {options : ArticleSearchOptions} (hv : Idle v) :
    (jobHost settings honest).wp (jobContract key) (searchProvider settings platform options).run
      (ProviderPost honest) v := by
  rw [searchProvider, Host.wp_run_bind, Host.wp_run_attempt]
  refine Host.wp_mono (wp_search_canceled hv) fun r v1 h1 => wp_ask rfl ?_
  rw [Host.wp_run_bind, Host.wp_run_ofExcept]
  have hfirst : v1.lo.provider.or (some r) = some r := by rw [h1.1.provider]; rfl
  cases r with
  | error e => exact ⟨h1.1.writes, .inr ⟨hfirst, h1.2 e rfl⟩⟩
  | ok articles =>
    rw [Host.afterOk_ok, Host.wp_run_bind]
    refine wp_throwIfAborted ?_
    split
    · rename_i hab
      exact ⟨h1.1.writes, .inl hab⟩
    · exact ⟨h1.1.writes, hfirst⟩

/-- The provider returned `articles`, and only they are written. -/
def Stored (key : JsString) (articles : ArticleList) (v : View) : Prop :=
  v.lo.provider = some (.ok articles) ∧ Justified key v

theorem Stored.grows {articles : ArticleList} (h : Stored key articles v) (hg : Grows v v') :
    Stored key articles v' :=
  ⟨hg.provider.trans h.1, h.2.grows hg⟩

theorem wp_writeArticles {k : JsString} {articles : ArticleList} {ttlSec : Nat}
    (hk : k = key ∨ k = staleCacheKey key) (hv : Stored key articles v) :
    (jobHost settings honest).wp (jobContract key) (writeArticles k articles ttlSec).run
      (fun r v => r = .ok () ∧ Stored key articles v) v := by
  refine wp_withSpan ?_
  rw [Host.wp_run_tryCatch]
  have hissue : Justified key (issue (Command.storeSet k articles.value ttlSec) v) := by
    intro w hw
    rcases List.mem_cons.mp hw with rfl | hw
    · exact ⟨hk, articles, hv.1, rfl⟩
    · exact hv.2 w hw
  refine Host.wp_wait (c := Command.storeSet k articles.value ttlSec) rfl hissue
    fun v1 hm hk1 r v2 hr => ?_
  cases hr
  have h1 : Stored key articles v1 := ⟨hm.provider.trans hv.1, hk1⟩
  rcases r with e | ⟨⟩ <;>
    exact ⟨h1.2, fun v3 h3 _ => ⟨rfl, h1.grows h3.toGrows⟩⟩

theorem wp_writeCachedArticles {articles : ArticleList} (hv : Stored key articles v) :
    (jobHost settings honest).wp (jobContract key) (writeCachedArticles settings key articles).run
      (fun r v => r = .ok () ∧ Stored key articles v) v := by
  rw [writeCachedArticles, Host.wp_run_bind]
  refine Host.wp_mono (wp_writeArticles (.inl rfl) hv) ?_
  rintro r v1 ⟨rfl, h1⟩
  exact wp_writeArticles (.inr rfl) h1

theorem wp_staleFallback {err : JsError} (hw : v.lo.writes = [])
    (hp : v.lo.provider = some (.error err)) (herr : isRequestAbortedError err = false) :
    (jobHost settings honest).wp (jobContract key) (staleFallback key err).run
      (fun r v => Justified key v ∧ LoadOutcome honest key r v) v := by
  have hj : Justified key v := by
    unfold Justified
    rw [hw]
    exact nofun
  refine wp_withSpan ?_
  rw [Host.wp_run_bind]
  refine Host.wp_mono (wp_readArticles (readable_job key) hj) fun r v1 ⟨hg, hread⟩ => ?_
  have hend : ∀ {r : Except JsError ArticleSearchResult}, LoadOutcome honest key r v1 →
      (jobContract key).inv v1 ∧ ∀ v2, (jobContract key).rely v1 v2 → (jobContract key).inv v2 →
        Justified key v2 ∧ LoadOutcome honest key r v2 := fun h =>
    ⟨hj.grows hg, fun v2 h2 hj2 => ⟨hj2, h.grows h2.toGrows⟩⟩
  rcases r with e | _ | ⟨articles, cache⟩
  · exact hread.elim
  · exact hend (.inr ⟨hg.provider.trans hp, fun _ he => nomatch herr.symm.trans he⟩)
  · obtain ⟨rfl, hread⟩ := hread
    exact hend ⟨⟨err, hg.provider.trans hp⟩, hread⟩

theorem wp_loadArticlesFromUpstream {options : ArticleSearchOptions} (hv : Idle v) :
    (jobHost settings honest).wp (jobContract key)
      (loadArticlesFromUpstream settings platform options key).run
      (fun r v => Justified key v ∧ LoadOutcome honest key r v) v := by
  rw [loadArticlesFromUpstream, Host.wp_run_bind, Host.wp_run_attempt]
  apply Host.wp_mono (wp_searchProvider hv)
  intro r v1 h1
  rw [Host.afterOk_ok]
  have hj : v1.lo.writes = [] → Justified key v1 := by
    intro hw
    unfold Justified
    rw [hw]
    exact nofun
  cases r with
  | error err =>
    obtain ⟨hw, h1⟩ := h1
    refine wp_ask rfl ?_
    split
    · rename_i hab
      refine ⟨hj hw, ?_⟩
      rcases h1 with hc | ⟨hp, hc⟩
      · exact .inl hc
      · rcases Bool.or_eq_true_iff.mp hab with hab | hab
        · exact .inl hab
        · obtain ⟨rfl, hh⟩ := hc hab
          by_cases hcl : v1.lo.client = true
          · exact .inl hcl
          · exact .inr ⟨hp, fun hhonest _ => (hh hhonest).resolve_left hcl⟩
    · rename_i hab
      obtain ⟨hcl, herr⟩ := not_or.mp (mt Bool.or_eq_true_iff.mpr hab)
      exact wp_staleFallback hw (h1.resolve_left hcl).1 (Bool.eq_false_iff.mpr herr)
  | ok articles =>
    simp only [Host.wp_run_bind]
    refine Host.wp_mono (wp_writeCachedArticles ⟨h1.2, hj h1.1⟩) ?_
    rintro r v2 ⟨rfl, h2⟩
    exact ⟨h2.2, h2.1⟩

/-! ## Coordinating -/

/-- What a coordination settles with: what its load did, or an entry it read
without having called the provider. -/
def CoordinationOutcome (honest : Bool) (key : JsString)
    (r : Except JsError (CacheMissCoordinationResult ArticleSearchResult)) (v : View) : Prop :=
  match r with
  | .ok ⟨value, .sharedCache⟩ => v.lo.provider = none ∧ (key, value.articles.value) ∈ v.lo.reads
  | .ok ⟨value, _⟩ => LoadOutcome honest key (.ok value) v
  | .error e => Rejected honest e v

theorem CoordinationOutcome.grows
    {r : Except JsError (CacheMissCoordinationResult ArticleSearchResult)}
    (h : CoordinationOutcome honest key r v) (hg : Grows v v') :
    CoordinationOutcome honest key r v' := by
  rcases r with e | ⟨value, _ | _ | _⟩
  · exact Rejected.grows h hg
  · exact LoadOutcome.grows h hg
  · exact ⟨hg.provider.trans h.1, hg.reads _ h.2⟩
  · exact LoadOutcome.grows h hg

/-- The outcome, and the writes so far. -/
def Coordinated (honest : Bool) (key : JsString)
    (r : Except JsError (CacheMissCoordinationResult ArticleSearchResult)) (v : View) : Prop :=
  Justified key v ∧ CoordinationOutcome honest key r v

theorem coordinated_aborted (hj : Justified key v) (ha : v.lo.client = true) :
    Coordinated honest key (.error .requestAborted) v :=
  ⟨hj, .inl ha⟩

theorem Coordinated.grows {r : Except JsError (CacheMissCoordinationResult ArticleSearchResult)}
    (h : Coordinated honest key r v) (hg : Grows v v') : Coordinated honest key r v' :=
  ⟨h.1.grows hg, h.2.grows hg⟩

theorem coordinated_load {r : Except JsError ArticleSearchResult} {source : Source}
    (hs : source ≠ .sharedCache) (h : Justified key v ∧ LoadOutcome honest key r v) :
    Coordinated honest key (r.map fun value => ⟨value, source⟩) v := by
  refine ⟨h.1, ?_⟩
  cases r with
  | error e => exact h.2
  | ok value =>
    cases source with
    | sharedCache => exact absurd rfl hs
    | upstream | bypassed => exact h.2

/-- The signal of a coordination is the one of the in-flight entry. -/
def clientFlag (settings : Settings) (honest : Bool) (key : JsString) (leases : Bool) :
    AbortFlag (jobHost settings honest) (jobContract key) (coordinatorRuntime leases) where
  aborted v := v.lo.client
  wp_aborted _ _ hq := Host.wp_now rfl hq

/-- A read of the fresh entry by a coordination. -/
theorem wp_readFresh {Q : Except JsError (Option ArticleSearchResult) → View → Prop}
    (hv : Idle v) (hq : ∀ r v', Idle v' → ReadPost key .hit r v' → Q r v') :
    (jobHost settings honest).wp (jobContract key) (readCachedArticles key).run Q v :=
  Host.wp_mono (wp_readArticles (readable_job key) hv.justified) fun r v1 h1 =>
    hq r v1 (hv.grows h1.1) h1.2

def jobOutline (settings : Settings) (platform : Platform) (honest : Bool)
    (options : ArticleSearchOptions) (key lease owner : JsString) (waitDeadline : Nat) :
    Outline (clientFlag settings honest key true) settings leaseStore lease owner waitDeadline
      (readCachedArticles key) (loadArticlesFromUpstream settings platform options key)
      (Coordinated honest key) where
  idle := Idle
  asking := Idle
  loose := Idle
  held := Idle
  ready := Idle
  beating := Idle
  loaded r v := Justified key v ∧ LoadOutcome honest key r v
  closing := Coordinated honest key
  refused := Idle
  waiting := Idle
  idle_inv _ h := ⟨h.justified, h.provider⟩
  idle_stable _ _ h hm _ := h.grows hm.toGrows
  enter v h := by
    split
    · rename_i hab
      exact coordinated_aborted h.justified hab
    · exact h
  acquire v h := by
    refine wp_quiet (readable_job key)
      (c := .tryAcquireLease lease owner settings.cacheLeaseTtlMs) rfl trivial
      h.justified fun v1 r v2 _ _ h2 => ?_
    have hidle := h.grows h2.toGrows
    refine unlessAborted_intro (coordinated_aborted hidle.justified) ?_
    rcases r with e | _ | _ <;> exact hidle
  loadLoose v h := by
    apply Host.wp_mono (wp_loadArticlesFromUpstream h)
    intro r v1 h1
    have : Coordinated honest key (r.map fun value => ⟨value, .upstream⟩) v1 :=
      coordinated_load nofun h1
    cases r <;> exact this
  recheck v h := by
    refine wp_readFresh h fun r v1 h1 hread => ?_
    refine unlessAborted_intro (coordinated_aborted h1.justified) ?_
    rcases r with e | _ | result
    · exact h1
    · exact h1
    · exact ⟨h1.justified, h1.provider, hread.2⟩
  beat v h := Host.wp_now rfl ⟨h.provider, h.writes⟩
  loadHeld v h := wp_loadArticlesFromUpstream h
  stop r v h := by
    have hend : Coordinated honest key (r.map fun value => ⟨value, .upstream⟩) v :=
      coordinated_load nofun h
    exact Host.wp_now rfl (hend.grows ⟨rfl, rfl, fun _ => id, id, id⟩)
  release r v h := by
    refine wp_quiet (readable_job key) (c := .releaseLease lease owner) rfl trivial h.1
      fun v1 r' v2 _ _ h2 => ?_
    exact h.grows h2.toGrows
  poll v h := by
    refine wp_readFresh h fun r v1 h1 hread => ?_
    refine unlessAborted_intro (coordinated_aborted h1.justified) ?_
    rcases r with e | _ | result
    · exact hread.elim
    · exact h1
    · exact ⟨h1.justified, h1.provider, hread.2⟩
  clock v h := Host.wp_now rfl (by split <;> exact h)
  jitter v h := Host.wp_now rfl ⟨h.provider, h.writes⟩
  doze delayMs v h := by
    split
    · rename_i hab
      exact coordinated_aborted h.justified hab
    · refine wp_quiet (readable_job key) (c := .sleep delayMs .client) rfl trivial h.justified
        fun v1 r v2 _ hr h2 => ?_
      have hidle := h.grows h2.toGrows
      rcases r with e | ⟨⟩
      · cases e with
        | requestAborted =>
          simp only [reply] at hr
          split at hr
          · rename_i hab
            cases hr
            exact coordinated_aborted hidle.justified hab
          · cases hr
        | _ => cases hr
      · exact hidle

theorem wp_coordination {leases : Bool} {options : ArticleSearchOptions} (hv : Idle v) :
    (jobHost settings honest).wp (jobContract key)
      (coordinateCacheMiss (coordinatorRuntime leases) settings platform key
        (readCachedArticles key) (loadArticlesFromUpstream settings platform options key)).run
      (Coordinated honest key) v := by
  cases leases with
  | true =>
    refine wp_coordinateCacheMiss (clientFlag settings honest key true) rfl ?_
    split
    · rename_i hab
      exact coordinated_aborted hv.justified hab
    · refine Host.wp_now rfl (Host.wp_now rfl ?_)
      refine ⟨jobOutline settings platform honest options _ _ _ _, ?_⟩
      exact hv
  | false =>
    refine wp_coordinateCacheMiss_bypassed (clientFlag settings honest key false) rfl ?_
    split
    · rename_i hab
      exact coordinated_aborted hv.justified hab
    · apply Host.wp_mono (wp_loadArticlesFromUpstream hv)
      intro r v1 h1
      have : Coordinated honest key (r.map fun value => ⟨value, .bypassed⟩) v1 :=
        coordinated_load nofun h1
      cases r <;> exact this

/-! ## The whole search -/

/-- What the upstream work of a search settles with. -/
def JobOutcome (honest : Bool) (key : JsString) (r : Except JsError ArticleSearchResult)
    (v : View) : Prop :=
  match r with
  | .ok ⟨articles, .coalesced⟩ => v.lo.provider = none ∧ (key, articles.value) ∈ v.lo.reads
  | r => LoadOutcome honest key r v

theorem JobOutcome.grows {r : Except JsError ArticleSearchResult}
    (h : JobOutcome honest key r v) (hg : Grows v v') : JobOutcome honest key r v' := by
  rcases r with e | ⟨articles, _ | _ | _ | _⟩
  · exact Rejected.grows h hg
  · exact h
  · exact hg.provider.trans h
  · exact ⟨hg.provider.trans h.1, hg.reads _ h.2⟩
  · exact ⟨h.1.imp fun e he => hg.provider.trans he, hg.reads _ h.2⟩

theorem LoadOutcome.job {r : Except JsError ArticleSearchResult}
    (h : LoadOutcome honest key r v) : JobOutcome honest key r v := by
  rcases r with e | ⟨articles, _ | _ | _ | _⟩
  · exact h
  · exact h
  · exact h
  · exact h.elim
  · exact h

theorem wp_fetchArticlesFromUpstream (settings : Settings) (platform : Platform)
    (honest leases : Bool) (options : ArticleSearchOptions) (key : JsString) (hv : Idle v) :
    (jobHost settings honest).wp (jobContract key)
      (fetchArticlesFromUpstream settings platform leases options key).run
      (fun r v => Justified key v ∧ JobOutcome honest key r v) v := by
  rw [fetchArticlesFromUpstream, Host.wp_run_bind]
  refine Host.wp_mono (wp_coordination hv) fun r v1 h1 => ?_
  rcases r with e | ⟨value, _ | _ | _⟩
  · exact ⟨h1.1, LoadOutcome.job (r := .error e) h1.2⟩
  · exact ⟨h1.1, LoadOutcome.job (r := .ok value) h1.2⟩
  · exact h1
  · exact ⟨h1.1, LoadOutcome.job (r := .ok value) h1.2⟩

end NewsApi.Services
