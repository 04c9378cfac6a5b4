import NewsApi.Services.CancelledLoad

/-! # Runs of a cancelled load

From the cancellation on, every step of the load finds a signal aborted, so it
comes to the retry loop at most once more, and it ends. -/
namespace NewsApi.Services
open NewsApi.Async NewsApi.Text NewsApi.Types NewsApi.Config NewsApi.Errors
open NewsApi.Runtime NewsApi.Providers

variable {settings : Settings} {platform : Platform} {honest : Bool} {key : JsString}
  {a : Act Command Reply View} {log : Log} {t : Scene} {α : Type}

/-! ## Loops begin with a look at the signal -/

/-- The look at the combined signal with which every attempt begins. -/
def Looks (c : Command) : Prop := c = .aborted .request

theorem rounds_ask (c : Command) : AsyncM.Rounds Looks (ask c) := .lift fun _ => trivial

theorem rounds_throwIfAborted (signal : Signal) : AsyncM.Rounds Looks (throwIfAborted signal) :=
  .bind (rounds_ask _) fun aborted => by cases aborted <;> exact trivial

theorem rounds_withSpan {x : Job α} (hx : AsyncM.Rounds Looks x) :
    AsyncM.Rounds Looks (withSpan x) :=
  .bind hx.attempt fun _ => .bind (rounds_ask .tick) fun _ => trivial

theorem rounds_afterFailedAttempt {T : Type} (attempt : Nat) (err : JsError) :
    AsyncM.Rounds Looks (afterFailedAttempt (T := T) settings .request attempt err) := by
  refine .bind (rounds_ask _) fun aborted => ?_
  split
  · trivial
  · split
    · trivial
    · refine .bind (rounds_ask _) fun random => .bind (rounds_withSpan ?_) fun _ => trivial
      exact .bind (rounds_throwIfAborted _) fun _ _ => trivial

theorem rounds_withUpstreamRetries {options : ArticleSearchOptions} :
    AsyncM.Rounds Looks (withUpstreamRetries settings (axiosGet settings options) .request) := by
  refine .loop fun attempt => ⟨⟨.aborted .request, _, rfl, rfl⟩, ?_⟩
  refine .tryCatch (.bind (rounds_throwIfAborted _) fun _ => ?_) (rounds_afterFailedAttempt attempt)
  exact .bind (x := axiosGet settings options) (fun _ => trivial) fun _ => trivial

theorem rounds_rethrow {err : JsError} :
    AsyncM.Rounds Looks (match err with
      | .axios error => do throw (mapAxiosError platform (← ask .dateNow) error)
      | err => throw err : Job ArticleList) := by
  cases err with
  | axios error => exact .bind (rounds_ask _) fun _ => trivial
  | _ => exact trivial

theorem rounds_settleFailure (st : CircuitRequestState) (err : JsError) :
    AsyncM.Rounds Looks (settleFailure platform st err) := by
  refine .bind (rounds_ask _) fun _ => .bind (rounds_ask _) fun _ => .bind (rounds_ask _) fun _ => ?_
  simp only []
  split
  · exact .bind (rounds_ask _) fun _ => .bind (rounds_ask _) fun _ => trivial
  · refine .bind (rounds_ask _) fun _ => ?_
    split
    · exact .bind (rounds_ask _) fun _ => trivial
    · split
      · exact .bind (rounds_ask _) fun _ => rounds_rethrow
      · split
        · exact .bind (rounds_ask _) fun _ => rounds_rethrow
        · exact rounds_rethrow

theorem rounds_search {options : ArticleSearchOptions} :
    AsyncM.Rounds Looks (search settings platform options) := by
  refine .bind (rounds_ask _) fun _ => .withFinally ?_ (rounds_ask _)
  refine .bind (rounds_throwIfAborted _) fun _ => .bind (rounds_withSpan ?_) fun st =>
    rounds_withSpan (.tryCatch ?_ (rounds_settleFailure st))
  · exact .bind (rounds_ask _) fun _ => trivial
  · refine .bind rounds_withUpstreamRetries fun data => .bind (rounds_throwIfAborted _) fun _ => ?_
    exact .bind trivial fun _ => .bind (rounds_ask _) fun _ => trivial

theorem rounds_readArticles (k : JsString) (cache : ArticleSearchCacheStatus) :
    AsyncM.Rounds Looks (readArticles k cache) := by
  have hdelete : AsyncM.Rounds Looks (deleteCorruptCacheEntry k) :=
    .tryCatch (x := cacheStore.delete k) (fun _ => trivial) fun _ => trivial
  refine rounds_withSpan (.bind (.attempt (x := cacheStore.get k) fun _ => trivial) fun r => ?_)
  rcases r with err | _ | cached
  · simp only []
    split
    · exact .bind hdelete fun _ => trivial
    · trivial
  · trivial
  · simp only []
    split
    · exact .bind hdelete fun _ => trivial
    · trivial

theorem rounds_loadArticlesFromUpstream {options : ArticleSearchOptions} :
    AsyncM.Rounds Looks (loadArticlesFromUpstream settings platform options key) := by
  unfold loadArticlesFromUpstream searchProvider
  refine .bind (.attempt ?_) fun r => ?_
  · refine .bind rounds_search.attempt fun r => .bind (rounds_ask _) fun _ => .bind trivial fun _ => ?_
    exact .bind (rounds_throwIfAborted _) fun _ => trivial
  · cases r with
    | error err =>
      refine .bind (rounds_ask _) fun _ => ?_
      split
      · trivial
      · refine rounds_withSpan (.bind (rounds_readArticles _ _) fun stale => ?_)
        cases stale <;> trivial
    | ok articles =>
      have hwrite : ∀ k ttlSec, AsyncM.Rounds Looks (writeArticles k articles ttlSec) :=
        fun k ttl => rounds_withSpan
          (.tryCatch (x := cacheStore.set k articles.value ttl) (fun _ => trivial) fun _ => trivial)
      exact .bind (.bind (hwrite _ _) fun _ => hwrite _ _) fun _ => trivial

/-! ## Runs -/

/-- What is known of a load at any time. -/
structure LoadInv (settings : Settings) (honest : Bool) (w : Watched ArticleSearchResult) :
    Prop where
  sound : Watched.Sound settings honest loadContract Cancelled w
  rounds : w.prog.Rounds Looks

variable {w w' : Watched ArticleSearchResult} {options : ArticleSearchOptions} {v : View}

def startLoad (settings : Settings) (platform : Platform) (honest : Bool)
    (options : ArticleSearchOptions) (key : JsString) (v : View) : Watched ArticleSearchResult :=
  Watched.start settings honest (loadArticlesFromUpstream settings platform options key) v

theorem LoadInv.start {x : Job ArticleSearchResult}
    (hwp : (jobHost settings honest).traced.wp loadContract x.run Cancelled ⟨v, []⟩)
    (hr : AsyncM.Rounds Looks x) : LoadInv settings honest (Watched.start settings honest x v) := by
  refine ⟨Watched.sound_start (Host.wp_mono hwp fun r t h => ⟨h.inv, h⟩), ?_⟩
  rw [Watched.start_prog]
  exact Prog.Rounds.advance hr _

theorem loadInv_start :
    LoadInv settings honest (startLoad settings platform honest options key v) := by
  have hpending : Pending (⟨v, []⟩ : Scene).log := ⟨List.forall_mem_nil _, rfl⟩
  have hunaborted : Unaborted (⟨v, []⟩ : Scene).log := List.forall_mem_nil _
  exact .start (wp_loadArticlesFromUpstream_cancelled hpending hunaborted)
    rounds_loadArticlesFromUpstream

theorem LoadInv.step {i : Incident} (h : LoadInv settings honest w)
    (hs : Watched.step settings honest w i = some w') : LoadInv settings honest w' := by
  refine ⟨h.sound.step hs fun v _ => ⟨rfl, h.sound.inv, fun _ => id, id⟩, ?_⟩
  rcases Watched.step_cases hs with ⟨answer, -, hr⟩ | ⟨v, -, rfl⟩
  · exact h.rounds.resume hr
  · exact h.rounds

/-- The load is cancelled, and was so when its outcome was classified. -/
structure Overtaken (w : Watched ArticleSearchResult) : Prop where
  cancelled : cancelled w.scene.state = true
  classified : ∀ v, classified w.scene.log = some v → Providers.cancelled v = true

theorem cancelled_kept {v v' : View} (hk : Watched.Kept v v') (h : cancelled v = true) :
    cancelled v' = true := by
  rw [cancelled, Bool.or_eq_true] at h ⊢
  exact h.imp hk.client hk.shutdown

theorem Overtaken.step {i : Incident} (h : Overtaken w)
    (hs : Watched.step settings honest w i = some w') : Overtaken w' := by
  have hsince := Watched.since_step cancelled_kept hs
  obtain ⟨newer, hlog, hnewer⟩ := hsince.newer
  refine ⟨hsince.kept h.cancelled, fun v hv => ?_⟩
  rw [hlog, classified_append] at hv
  rcases Option.or_eq_some_iff.mp hv with hv | ⟨-, hv⟩
  · exact h.classified v hv
  · obtain ⟨a, ha, hav⟩ := classified_mem hv
    have := hnewer h.cancelled a ha
    rwa [classifies_state hav] at this

/-- The circuit check, if the search came to it, admitted the search. -/
def Admitted (log : Log) : Prop := log.any rejects = false

theorem Overtaken.reached (h : Overtaken w) (ha : Admitted w.scene.log) :
    ¬OutOfReach w.scene.log := by
  rintro (hr | ⟨v, hv, hc⟩)
  · exact Bool.eq_false_iff.mp ha hr
  · rw [h.classified v hv] at hc
    cases hc

/-- Cancelled, a load does not come to a loop more than once. -/
theorem looks_of_resume {β γ : Type} {body : β → Prog Command Reply (β ⊕ γ)} {b : β}
    {k : γ → Prog Command Reply (Except JsError ArticleSearchResult)}
    {answer : (c : Command) → Option (Reply c)} {t t' : Scene}
    {p : Prog Command Reply (Except JsError ArticleSearchResult)}
    (hr : (Prog.iter body b k).Rounds Looks) (hc : cancelled t.state = true)
    (h : (jobHost settings honest).traced.resume answer (.iter body b k) t = some (p, t')) :
    ¬Unaborted t'.log := by
  obtain ⟨⟨c, f, hbody, rfl⟩, -⟩ := hr.1 b
  obtain ⟨rest, hround⟩ : ∃ rest, Host.round body b k = (body b).bind rest := ⟨_, rfl⟩
  rw [Host.resume, hround, hbody] at h
  have hsince := Host.since_advance (h := jobHost settings honest) (P := fun _ => True)
    (fun _ _ _ _ _ => id) (fun _ _ => id)
    ((f (t.state.aborted .request)).bind rest)
    ⟨t.state, .did (.aborted .request) (t.state.aborted .request) t.state t.state :: t.log⟩
  obtain ⟨newer, hlog, -⟩ := hsince.newer
  intro hu
  have hmem : .did (.aborted .request) (t.state.aborted .request) t.state t.state ∈ t'.log := by
    have ht' := congrArg (fun next => next.2.log) (Option.some.inj h)
    rw [← ht']
    exact hlog ▸ List.mem_append_right newer List.mem_cons_self
  have := hu _ hmem
  rw [cancelled_request hc] at this
  cases this

section
variable {x : Execution (Watched.step (α := ArticleSearchResult) settings honest)} {n : Nat}

theorem LoadInv.atLoop {β γ : Type} {body : β → Prog Command Reply (β ⊕ γ)} {b : β}
    {k : γ → Prog Command Reply (Except JsError ArticleSearchResult)}
    (h : LoadInv settings honest w) (hp : w.prog = .iter body b k) :
    OutOfReach w.scene.log ∨ Unaborted w.scene.log := by
  have hparked := h.sound.parked
  rw [hp] at hparked
  exact hparked.1

/-- A cancelled load ends: it comes to a loop at most once. -/
theorem cancelled_ends (hx : Watched.Fair x) (ha : ∀ n, Admitted (x.state n).scene.log)
    (h : LoadInv settings honest (x.state n)) (ho : Overtaken (x.state n)) :
    ∃ m ≥ n, Watched.Ended (x.state m) := by
  have hstep : ∀ w i w', (LoadInv settings honest w ∧ Overtaken w) →
      Watched.step settings honest w i = some w' → LoadInv settings honest w' ∧ Overtaken w' :=
    fun w i w' hw hs => ⟨hw.1.step hs, hw.2.step hs⟩
  refine Watched.ends (P := fun w => LoadInv settings honest w ∧ Overtaken w) hx hstep ?_ ⟨h, ho⟩
  intro n β γ body b k hn hp
  have hrun : ¬Watched.Ended (x.state n) := by
    intro ⟨r, hr⟩
    cases hp.symm.trans hr
  obtain ⟨m, hnm, hm, hprog, answer, hev⟩ := Watched.resumed hx hstep hn hrun
  have hr := Watched.resume_occurred hev
  have hrounds := hm.1.rounds
  rw [hprog, hp] at hr hrounds
  have hlooked := looks_of_resume hrounds hm.2.cancelled hr
  have hnow := hstep _ _ _ hm (Execution.occurred hev)
  -- from here on the combined signal has been found aborted
  obtain ⟨u, hu, hend⟩ := Watched.ends (t := m + 1)
    (P := fun w => (LoadInv settings honest w ∧ Overtaken w) ∧ ¬Unaborted w.scene.log) hx
    (fun w i w' hw hs => ⟨hstep w i w' hw.1 hs, fun hu => hw.2 fun a ha => by
      obtain ⟨newer, hlog, -⟩ := (Watched.since_step (P := fun _ => True) (fun _ => id) hs).newer
      exact hu a (hlog ▸ List.mem_append_right newer ha)⟩)
    (fun n β γ body b k hn hp => absurd (hn.1.1.atLoop hp)
      (not_or.mpr ⟨hn.1.2.reached (ha n), hn.2⟩)) ⟨hnow, hlooked⟩
  exact ⟨u, by omega, hend⟩

end

/-! ## The result -/

/-- What a load has done, `w` being when it had been cancelled. -/
structure LeavesNoTrace (w w' : Watched ArticleSearchResult) : Prop where
  attempts : ∃ newer, w'.scene.log = newer ++ w.scene.log ∧
    ∀ params v, .sent (.axiosGet params) v ∉ newer
  failures : ∀ c r v v', .did c r v v' ∈ w'.scene.log →
    v'.sh.circuit.failures = v.sh.circuit.failures
  writes : ∀ key value ttlSec v, .sent (.storeSet key value ttlSec) v ∉ w'.scene.log
  lookups : ∀ key v, .sent (.storeGet key) v ∉ w'.scene.log
  outcome : ∀ r, w'.prog = .pure r → r = .error .requestAborted

theorem LoadInv.leavesNoTrace (h : LoadInv settings honest w') (ho : Overtaken w')
    (ha : Admitted w'.scene.log) (hc : cancelled w.scene.state = true)
    (hw : Reachable (Watched.step settings honest) w w') : LeavesNoTrace w w' := by
  have hreached := ho.reached ha
  have hclean : Clean w'.scene.log := h.sound.inv.resolve_left hreached
  obtain ⟨newer, hlog, hnewer⟩ := (Watched.since_of_reachable cancelled_kept hw).newer
  refine ⟨⟨newer, hlog, fun params v hmem => ?_⟩, fun c r v v' hmem => hclean _ hmem,
    fun key value ttlSec v hmem => hclean _ hmem, fun key v hmem => hclean _ hmem, fun r hr => ?_⟩
  · -- an attempt is not sent while the signal is aborted, and since `w` it is
    have hquiet : cancelled v = false := hclean (.sent (.axiosGet params) v) <| by
      rw [hlog]
      exact List.mem_append_left _ hmem
    have hthen : cancelled v = true := hnewer hc _ hmem
    rw [hquiet] at hthen
    cases hthen
  · have hparked := h.sound.parked
    rw [hr] at hparked
    exact (Or.resolve_left hparked hreached).2

/-- A load that is cancelled before the outcome of its search is classified, at
whatever step and whatever the provider answers: it leaves no trace, and it
ends as cancelled. -/
theorem cancellation_leaves_no_trace (settings : Settings) (platform : Platform) (honest : Bool)
    (options : ArticleSearchOptions) (key : JsString) (v : View) :
    (∀ w, Reachable (Watched.step settings honest)
        (startLoad settings platform honest options key v) w →
      cancelled w.scene.state = true → classified w.scene.log = none →
      ∀ w', Reachable (Watched.step settings honest) w w' → Admitted w'.scene.log →
        LeavesNoTrace w w') ∧
    (∀ x : Execution (Watched.step settings honest),
      x.state 0 = startLoad settings platform honest options key v → Watched.Fair x →
      (∀ n, Admitted (x.state n).scene.log) →
      ∀ n, cancelled (x.state n).scene.state = true → classified (x.state n).scene.log = none →
        ∃ m ≥ n, (x.state m).prog = .pure (.error .requestAborted)) := by
  have hover : ∀ {w : Watched ArticleSearchResult}, cancelled w.scene.state = true →
      classified w.scene.log = none → Overtaken w := fun hc hn =>
    ⟨hc, fun v hv => by rw [hn] at hv; cases hv⟩
  have hinv : ∀ {w}, Reachable (Watched.step settings honest)
      (startLoad settings platform honest options key v) w → LoadInv settings honest w :=
    fun hw => hw.invariant loadInv_start fun _ _ _ h hs => h.step hs
  constructor
  · intro w hw hc hn w' hw' ha
    have ho : Overtaken w' := hw'.invariant (hover hc hn) fun _ _ _ h hs => h.step hs
    exact (hinv (hw.trans hw')).leavesNoTrace ho ha hc hw'
  · intro x hinit hx ha n hc hn
    have h0 : LoadInv settings honest (x.state 0) := hinit ▸ loadInv_start
    have hload : LoadInv settings honest (x.state n) :=
      Execution.stays (fun _ _ _ h hs => LoadInv.step h hs) (Nat.zero_le n) h0
    obtain ⟨m, hnm, r, hr⟩ := cancelled_ends hx ha hload (hover hc hn)
    have hm : LoadInv settings honest (x.state m) ∧ Overtaken (x.state m) :=
      Execution.stays (P := fun w => LoadInv settings honest w ∧ Overtaken w)
        (fun _ _ _ h hs => ⟨h.1.step hs, h.2.step hs⟩) hnm ⟨hload, hover hc hn⟩
    have hparked := hm.1.sound.parked
    rw [hr] at hparked
    refine ⟨m, hnm, hr.trans ?_⟩
    rw [(Or.resolve_left hparked (hm.2.reached (ha m))).2]

/-! ## A sample run -/

def sampleLoad : Watched ArticleSearchResult :=
  startLoad .default .plain true ⟨js "q", 10, 1, none, none, none, none, none⟩ (js "key")
    ⟨.initial, .start 0 (fun _ => 0) []⟩

/-- The provider answers with articles. -/
def articlesAnswer : (c : Command) → Option (Reply c)
  | .axiosGet _ => some (.ok (.obj [(js "articles", .arr [])]))
  | .tick => some ()
  | _ => none

/-- The client disconnects while the request is under way. -/
def disconnectedLoad : List Incident :=
  [.resume articlesAnswer, .resume articlesAnswer, .disconnect, .resume articlesAnswer,
    .resume articlesAnswer]

def disconnectedExecution : Execution (@Watched.step ArticleSearchResult .default true) :=
  .ofRun sampleLoad disconnectedLoad rfl

theorem fair_disconnectedExecution : Watched.Fair disconnectedExecution := by
  intro n hn
  match n with
  | 0 => exact ⟨0, Nat.le_refl 0, articlesAnswer, rfl⟩
  | 1 => exact ⟨1, Nat.le_refl 1, articlesAnswer, rfl⟩
  | 2 | 3 => exact ⟨3, by decide, articlesAnswer, rfl⟩
  | 4 => exact ⟨4, Nat.le_refl 4, articlesAnswer, rfl⟩
  | n + 5 => exact absurd ⟨_, rfl⟩ hn

/-- The load ends as cancelled although the provider has answered. -/
theorem cancellation_leaves_no_trace_disconnected :
    (∃ w', run (Watched.step .default true) sampleLoad disconnectedLoad = some w' ∧
      LeavesNoTrace (disconnectedExecution.state 3) w') ∧
    ∃ m, (disconnectedExecution.state m).prog = .pure (.error .requestAborted) := by
  obtain ⟨hsafe, hlive⟩ := cancellation_leaves_no_trace .default .plain true
    ⟨js "q", 10, 1, none, none, none, none, none⟩ (js "key") ⟨.initial, .start 0 (fun _ => 0) []⟩
  have hthree : Reachable (Watched.step .default true) sampleLoad (disconnectedExecution.state 3) :=
    ⟨disconnectedLoad.take 3, rfl⟩
  have hrest : Reachable (Watched.step .default true) (disconnectedExecution.state 3)
      (disconnectedExecution.state 5) := ⟨disconnectedLoad.drop 3, rfl⟩
  have hadmitted : ∀ n, Admitted (disconnectedExecution.state n).scene.log := by
    intro n
    match n with
    | 0 | 1 | 2 | 3 | 4 | n + 5 => rfl
  refine ⟨⟨_, rfl, hsafe _ hthree rfl rfl _ hrest (hadmitted 5)⟩, ?_⟩
  obtain ⟨m, -, hm⟩ := hlive _ rfl fair_disconnectedExecution hadmitted 3 rfl rfl
  exact ⟨m, hm⟩

end NewsApi.Services
