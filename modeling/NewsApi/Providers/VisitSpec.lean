import NewsApi.Providers.Visit

/-! # A search without overlap follows the textbook

The proof follows the program text: up to the classification the circuit is
what the check made of it, and then it changes once. -/
namespace NewsApi.Providers
open NewsApi.Async NewsApi.Types NewsApi.Config NewsApi.Errors NewsApi.Patterns NewsApi.Runtime

variable {settings : Settings} {platform : Platform} {circuit : CircuitState}
  {circuitState : CircuitRequestState} {t t' : Scene} {v : View} {a : Act Command Reply View}
  {honest : Bool} {α : Type}

/-- Admitted, with its outcome open, in a scene. -/
def UpstreamAt (settings : Settings) (circuit : CircuitState) (circuitState : CircuitRequestState)
    (t : Scene) : Prop := Upstream settings circuit circuitState t.state.sh.circuit t.log

def DecidedAt (settings : Settings) (circuit : CircuitState) (t : Scene) : Prop :=
  Decided settings circuit t.state.sh.circuit t.log

theorem UpstreamAt.rely (h : UpstreamAt settings circuit circuitState t)
    (hr : visitContract.rely t t') : UpstreamAt settings circuit circuitState t' := by
  rw [UpstreamAt, hr.1, hr.2.1]
  exact h

theorem DecidedAt.rely (h : DecidedAt settings circuit t) (hr : visitContract.rely t t') :
    DecidedAt settings circuit t' := by
  rw [DecidedAt, hr.1, hr.2.1]
  exact h

/-! ## Attempts and retries -/

/-- What the retries make of the answer of the last attempt. -/
def passed : Except JsError Json → Except JsError Json
  | .ok data => .ok data
  | .error error => .error (if isRequestAbortedError error then .requestAborted else error)

/-- The combined signal is aborted, or the last answer explains the outcome. -/
def Explained (of : Except JsError Json → Except JsError α) (r : Except JsError α)
    (t : Scene) : Prop :=
  t.state.aborted .request = true ∨ ∃ answer, lastAnswer t.log = some answer ∧ r = of answer

theorem Explained.rely {f : Except JsError Json → Except JsError α} {r : Except JsError α}
    (h : Explained f r t) (hr : visitContract.rely t t') : Explained f r t' :=
  h.imp hr.2.2 fun h => by rw [hr.1]; exact h

/-- A span changes nothing that is known. -/
theorem wp_withSpan_visit {operation : Job α} {Q : Except JsError α → Scene → Prop}
    (h : (jobHost settings honest).traced.wp visitContract operation.run Q t)
    (sent : ∀ r t, Q r t → Q r ⟨t.state, .sent .tick t.state :: t.log⟩)
    (answered : ∀ r t, Q r t → Q r ⟨t.state, .answered .tick () t.state :: t.log⟩)
    (rely : ∀ r t t', Q r t → visitContract.rely t t' → Q r t') :
    (jobHost settings honest).traced.wp visitContract (withSpan operation).run Q t := by
  refine Watched.wp_withSpan (Host.wp_mono h fun r t1 h1 => ⟨trivial, fun t2 hr _ => ?_⟩)
  exact answered r t2 (rely r _ t2 (sent r t1 h1) hr)

/-- A failed attempt that is not followed by another one ended with `r`. -/
def AttemptPost (settings : Settings) (circuit : CircuitState) (circuitState : CircuitRequestState)
    (r : Except JsError (Nat ⊕ Json)) (t : Scene) : Prop :=
  UpstreamAt settings circuit circuitState t ∧ match r with
    | .ok (.inl _) => True
    | .ok (.inr data) => Explained passed (.ok data) t
    | .error error => Explained passed (.error error) t

theorem wp_retrySleep_visit {delayMs : Nat} (h : UpstreamAt settings circuit circuitState t) :
    (jobHost settings honest).traced.wp visitContract (withSpan (sleep delayMs .request)).run
      (fun r t => UpstreamAt settings circuit circuitState t ∧
        ∀ error, r = .error error → t.state.aborted .request = true) t := by
  refine wp_withSpan_visit ?_ ?_ ?_ ?_
  · rw [sleep, Host.wp_run_bind]
    refine Watched.wp_throwIfAborted ?_
    cases hab : t.state.aborted .request
    · rw [if_neg (by simp), Host.afterOk_ok]
      refine Watched.wp_await (c := .sleep delayMs .request) rfl trivial fun t1 hr _ r v hv => ?_
      have h1 : UpstreamAt settings circuit circuitState t1 := by
        refine UpstreamAt.rely ?_ hr
        exact Upstream.cons (Upstream.cons h rfl rfl) rfl rfl
      cases r with
      | ok _ =>
        cases hv
        exact ⟨Upstream.cons h1 rfl rfl, nofun⟩
      | error error =>
        cases error with
        | requestAborted =>
          simp only [reply] at hv
          split at hv <;> cases hv
          rename_i hab1
          exact ⟨Upstream.cons h1 rfl rfl, fun _ _ => hab1⟩
        | _ => cases hv
    · exact ⟨Upstream.cons h rfl rfl, fun _ _ => hab⟩
  · exact fun r t h => ⟨Upstream.cons h.1 rfl rfl, h.2⟩
  · exact fun r t h => ⟨Upstream.cons h.1 rfl rfl, h.2⟩
  · exact fun r t t' h hr => ⟨h.1.rely hr, fun e he => hr.2.2 (h.2 e he)⟩

theorem wp_afterFailedAttempt_visit {attempt : Nat} {error : JsError}
    (h : UpstreamAt settings circuit circuitState t)
    (he : t.state.aborted .request = true ∨ lastAnswer t.log = some (.error error)) :
    (jobHost settings honest).traced.wp visitContract
      (afterFailedAttempt settings .request attempt error).run
      (AttemptPost settings circuit circuitState) t := by
  refine Watched.wp_ask rfl ?_
  have h1 : UpstreamAt settings circuit circuitState
      ⟨t.state, .did (.aborted .request) (t.state.aborted .request) t.state t.state :: t.log⟩ :=
    Upstream.cons h rfl rfl
  split
  · rename_i hab
    refine ⟨h1, ?_⟩
    by_cases hnow : t.state.aborted .request = true
    · exact .inl hnow
    · have herror : isRequestAbortedError error = true := by simpa [hnow] using hab
      refine .inr ⟨.error error, he.resolve_left hnow, ?_⟩
      rw [passed, if_pos herror]
  · rename_i hab
    obtain ⟨hnow, herror⟩ := not_or.mp (mt Bool.or_eq_true_iff.mpr hab)
    split
    · refine ⟨h1, .inr ⟨.error error, he.resolve_left hnow, ?_⟩⟩
      rw [passed, if_neg herror]
    · refine Watched.wp_ask rfl ?_
      rw [Host.wp_run_bind]
      refine Host.wp_mono (wp_retrySleep_visit (Upstream.cons h1 rfl rfl)) fun r t2 h2 => ?_
      cases r with
      | error e => exact ⟨h2.1, .inl (h2.2 e rfl)⟩
      | ok _ => exact ⟨h2.1, trivial⟩

theorem reply_axiosGet {params : ProviderParams} {r : Except JsError Json} {v' : View}
    (h : reply honest (.axiosGet params) r v = some v') : v' = v := by
  cases r with
  | ok data => exact (Option.some.inj h).symm
  | error error =>
    simp only [reply] at h
    split at h
    · cases h
    · exact (Option.some.inj h).symm

theorem wp_withUpstreamRetries_visit {options : ArticleSearchOptions}
    (h : UpstreamAt settings circuit circuitState t) :
    (jobHost settings honest).traced.wp visitContract
      (withUpstreamRetries settings (axiosGet settings options) .request).run
      (fun r t => UpstreamAt settings circuit circuitState t ∧ Explained passed r t) t := by
  refine Host.wp_run_loop (fun _ t => UpstreamAt settings circuit circuitState t) h
    (fun _ _ _ => ⟨trivial, trivial⟩) (fun _ _ _ h hr _ => h.rely hr) fun attempt t1 h1 => ?_
  have hend : ∀ {r : Except JsError (Nat ⊕ Json)} {t : Scene},
      AttemptPost settings circuit circuitState r t →
      Host.roundOutcome (fun _ t => UpstreamAt settings circuit circuitState t)
        (fun r t => UpstreamAt settings circuit circuitState t ∧ Explained passed r t) r t := by
    intro r t h
    rcases r with e | n | data
    · exact h
    · exact h.1
    · exact h
  rw [Host.wp_run_tryCatch, Host.wp_run_bind]
  refine Watched.wp_throwIfAborted ?_
  cases hab : t1.state.aborted .request
  · rw [if_neg (by simp), Host.afterOk_ok, Host.wp_run_bind]
    refine Watched.wp_await (c := .axiosGet (toProviderParams settings options)) rfl trivial
      fun t2 hr _ r v hv => ?_
    have h2 : UpstreamAt settings circuit circuitState t2 := by
      refine UpstreamAt.rely ?_ hr
      exact Upstream.cons (Upstream.cons h1 rfl rfl) rfl rfl
    obtain rfl := reply_axiosGet hv
    have h3 : UpstreamAt settings circuit circuitState ⟨t2.state,
        .answered (.axiosGet (toProviderParams settings options)) r t2.state :: t2.log⟩ :=
      Upstream.cons h2 rfl rfl
    cases r with
    | ok data => exact ⟨h3, .inr ⟨.ok data, rfl, rfl⟩⟩
    | error error =>
      exact Host.wp_mono (wp_afterFailedAttempt_visit h3 (.inr rfl)) fun _ _ h => hend h
  · rw [if_pos rfl]
    exact Host.wp_mono (wp_afterFailedAttempt_visit (Upstream.cons h1 rfl rfl) (.inl hab))
      fun _ _ h => hend h

/-! ## The classification -/

theorem outcomeOf_accepted (ha : t.state.aborted .request = false) {data : Json}
    {articles : ArticleList} (hn : normalizeArticles data = .ok articles)
    (hl : lastAnswer t.log = some (.ok data)) (hc : classified t.log = none)
    (hd : classifies a = some t.state) (hla : lastAnswer (a :: t.log) = lastAnswer t.log) :
    outcomeOf (a :: t.log) = some (.success, t.state.sh.clock) := by
  have hsignals : cancelled t.state = false ∧ t.state.lo.deadline = false := by
    simpa [View.aborted, cancelled] using ha
  rw [outcomeOf, classified_cons hc, hd, hla, hl]
  simp [hsignals.1, hsignals.2, answerOutcome, hn]

theorem wp_requestArticles_visit {options : ArticleSearchOptions}
    (h : UpstreamAt settings circuit circuitState t) :
    (jobHost settings honest).traced.wp visitContract (requestArticles settings options).run
      (fun r t => match r with
        | .ok _ => DecidedAt settings circuit t
        | .error error => UpstreamAt settings circuit circuitState t ∧
            Explained (fun answer => (passed answer).bind normalizeArticles) (.error error) t) t := by
  rw [requestArticles, Host.wp_run_bind]
  refine Host.wp_mono (wp_withUpstreamRetries_visit h) fun r t1 h1 => ?_
  cases r with
  | error error =>
    refine ⟨h1.1, h1.2.imp_right fun ⟨answer, hl, he⟩ => ⟨answer, hl, ?_⟩⟩
    show _ = (passed answer).bind normalizeArticles
    rw [← he]
    rfl
  | ok data =>
    rw [Host.afterOk_ok, Host.wp_run_bind]
    refine Watched.wp_throwIfAborted ?_
    have h2 : UpstreamAt settings circuit circuitState
        ⟨t1.state, .did (.aborted .request) (t1.state.aborted .request) t1.state t1.state ::
          t1.log⟩ := Upstream.cons h1.1 rfl rfl
    cases hab : t1.state.aborted .request <;> rw [hab] at h2
    · rw [if_neg (by simp), Host.afterOk_ok, Host.wp_run_bind, Host.wp_run_ofExcept]
      obtain ⟨answer, hl, hanswer⟩ := h1.2.resolve_left (by simp [hab])
      obtain rfl : answer = .ok data := by
        cases answer with
        | ok data' => exact hanswer.symm
        | error e => cases hanswer
      cases hn : normalizeArticles data with
      | error error => exact ⟨h2, .inr ⟨.ok data, hl, hn.symm⟩⟩
      | ok articles =>
        refine Watched.wp_ask rfl ⟨circuitState, .success, t1.state.sh.clock, _,
          ⟨h2.check, ?_⟩, rfl⟩
        exact outcomeOf_accepted hab hn hl h2.classified rfl rfl
    · exact ⟨h2, .inl hab⟩

/-- How the last answer and the error that the handler is given hang together. -/
theorem answerOutcome_of_error {answer : Except JsError Json} {error : JsError}
    (h : .error error = (passed answer).bind normalizeArticles) :
    answerOutcome answer =
      if isRequestAbortedError error then .cancelled
      else if shouldRecordProviderFailure error then .transient else .permanent := by
  cases answer with
  | ok data =>
    have hn : normalizeArticles data = .error error := h.symm
    have hinvalid : error = invalidPayloadError := by
      unfold normalizeArticles at hn
      split at hn
      · exact (Except.error.inj hn).symm
      · split at hn
        · exact (Except.error.inj hn).symm
        · split at hn <;> cases hn
          rfl
    rw [answerOutcome, hn, hinvalid]
    rfl
  | error e =>
    have he : error = if isRequestAbortedError e then .requestAborted else e := Except.error.inj h
    cases hab : isRequestAbortedError e with
    | true =>
      rw [he, hab, answerOutcome, if_pos hab]
      rfl
    | false =>
      obtain rfl : error = e := by rw [he, hab]; rfl
      rw [answerOutcome, hab, errorOutcome_eq hab]

/-- The error that is rethrown leaves the circuit as it is. -/
theorem wp_rethrow_visit {err : JsError} (h : DecidedAt settings circuit t) :
    (jobHost settings honest).traced.wp visitContract
      (match err with
        | .axios error => do throw (mapAxiosError platform (← ask .dateNow) error)
        | err => throw err : Job ArticleList).run (fun _ => DecidedAt settings circuit) t := by
  cases err with
  | axios error => exact Watched.wp_ask rfl (Decided.cons h rfl rfl)
  | _ => exact h

theorem wp_settleFailure_visit {err : JsError} (h : UpstreamAt settings circuit circuitState t)
    (he : Explained (fun answer => (passed answer).bind normalizeArticles) (.error err) t) :
    (jobHost settings honest).traced.wp visitContract (settleFailure platform circuitState err).run
      (fun _ => DecidedAt settings circuit) t := by
  refine Watched.wp_ask rfl (Watched.wp_ask rfl (Watched.wp_ask rfl ?_))
  -- the first look, at the deadline, classifies the outcome
  have hready : ∀ outcome, (if cancelled t.state then some .cancelled
        else if t.state.lo.deadline then some .transient
        else (lastAnswer t.log).map answerOutcome) = some outcome →
      Ready settings circuit circuitState outcome t.state.sh.clock t.state.sh.circuit
        (.did (.aborted .shutdown) (t.state.aborted .shutdown) t.state t.state ::
          .did (.aborted .client) (t.state.aborted .client) t.state t.state ::
          .did (.aborted .deadline) (t.state.aborted .deadline) t.state t.state :: t.log) := by
    intro outcome ho
    refine .cons (.cons ⟨h.check, ?_⟩ rfl rfl) rfl rfl
    rw [outcomeOf, classified_cons h.classified, classifies, Option.bind_some]
    exact congrArg (Option.map _) ho
  simp only []
  cases hc : cancelled t.state with
  | true =>
    have hdone := (hready .cancelled (by simp [hc])).decided
    have hsignals : (t.state.aborted .deadline && !t.state.aborted .client &&
        !t.state.aborted .shutdown) = false := by
      rcases Bool.or_eq_true_iff.mp hc with hc | hc <;> simp [View.aborted, hc]
    rw [hsignals, if_neg (by simp)]
    refine Watched.wp_ask rfl ?_
    rw [if_pos (by simp [cancelled_request hc])]
    exact Watched.wp_ask rfl (Decided.cons (Decided.cons hdone rfl rfl) rfl rfl)
  | false =>
    have hnot : t.state.lo.client = false ∧ t.state.sh.shutdown = false := by
      simpa [cancelled] using hc
    cases hd : t.state.lo.deadline with
    | true =>
      have hdone := (hready .transient (by simp [hc, hd])).decided
      rw [if_pos (by simp [View.aborted, hd, hnot.1, hnot.2])]
      refine Watched.wp_ask rfl (Watched.wp_ask rfl ?_)
      exact Decided.cons (Decided.cons hdone rfl rfl) rfl rfl
    | false =>
      have hquiet : t.state.aborted .request = false := by
        simp [View.aborted, hnot.1, hnot.2, hd]
      obtain ⟨answer, hl, hanswer⟩ := he.resolve_left (by simp [hquiet])
      have hdone := (hready (answerOutcome answer) (by simp [hc, hd, hl])).decided
      rw [answerOutcome_of_error hanswer] at hdone
      rw [if_neg (by simp [View.aborted, hd])]
      refine Watched.wp_ask rfl ?_
      rw [show t.state.aborted .request = false from hquiet, Bool.false_or]
      split
      · rename_i hcancel
        rw [if_pos hcancel] at hdone
        exact Watched.wp_ask rfl (Decided.cons (Decided.cons hdone rfl rfl) rfl rfl)
      · rename_i hcancel
        rw [if_neg hcancel] at hdone
        split
        · rename_i hrecord
          rw [if_pos hrecord] at hdone
          exact Watched.wp_ask rfl (wp_rethrow_visit (Decided.cons (Decided.cons hdone rfl rfl)
            rfl rfl))
        · rename_i hrecord
          rw [if_neg hrecord, settled] at hdone
          split
          · rename_i hopen
            rw [if_pos hopen] at hdone
            exact Watched.wp_ask rfl (wp_rethrow_visit (Decided.cons (Decided.cons hdone rfl rfl)
              rfl rfl))
          · rename_i hopen
            rw [if_neg hopen] at hdone
            exact wp_rethrow_visit (Decided.cons hdone rfl rfl)

/-! ## The whole search -/

def VisitAt (settings : Settings) (circuit : CircuitState) (r : Except JsError ArticleList)
    (t : Scene) : Prop := Visit settings circuit t.log t.state.sh.circuit r

theorem VisitAt.rely {r : Except JsError ArticleList} (h : VisitAt settings circuit r t)
    (hr : visitContract.rely t t') : VisitAt settings circuit r t' := by
  rw [VisitAt, hr.1, hr.2.1]
  exact h

/-- Before its check, nothing has been sent and the circuit is untouched. -/
structure Fresh (circuit : CircuitState) (t : Scene) : Prop where
  checked : checkTime t.log = none
  attempts : t.log.any isAttempt = false
  classified : classified t.log = none
  kept : t.state.sh.circuit = circuit

theorem wp_checkCircuit_visit (h : Fresh circuit t) :
    (jobHost settings honest).traced.wp visitContract
      (withSpan do AsyncM.ofExcept (← ask .assertCircuitAllowsRequest)).run
      (fun r t => match r with
        | .ok circuitState => UpstreamAt settings circuit circuitState t
        | .error error => VisitAt settings circuit (.error error) t) t := by
  obtain ⟨p, hp⟩ : ∃ p, assertCircuitAllowsRequest settings t.state.sh.clock
    t.state.sh.circuit = p := ⟨_, rfl⟩
  have hn : now settings .assertCircuitAllowsRequest t.state =
      some (p.1, t.state.circuitStep (.check p.1) p.2) := by rw [← hp]; rfl
  rw [h.kept] at hp
  refine wp_withSpan_visit (Watched.wp_ask hn ?_) ?_ ?_ ?_
  · rcases p with ⟨error | circuitState, found⟩
    · exact .rejected rfl (by simp [isAttempt, h.attempts]) hp
    · exact ⟨⟨t.state.sh.clock, rfl, hp⟩, classified_cons_none h.classified rfl⟩
  · intro r t h
    cases r with
    | ok circuitState => exact Upstream.cons h rfl rfl
    | error error => exact Visit.cons h rfl rfl rfl
  · intro r t h
    cases r with
    | ok circuitState => exact Upstream.cons h rfl rfl
    | error error => exact Visit.cons h rfl rfl rfl
  · intro r t t' h hr
    cases r with
    | ok circuitState => exact UpstreamAt.rely h hr
    | error error => exact VisitAt.rely h hr

theorem wp_search_visit {options : ArticleSearchOptions} (h : Fresh circuit t) :
    (jobHost settings honest).traced.wp visitContract (search settings platform options).run
      (VisitAt settings circuit) t := by
  refine Watched.wp_ask rfl ?_
  rw [Host.wp_run_withFinally]
  suffices hmain : ∀ t : Scene, Fresh circuit t →
      (jobHost settings honest).traced.wp visitContract
        (do
          throwIfAborted .request
          let circuitState ← withSpan do AsyncM.ofExcept (← ask .assertCircuitAllowsRequest)
          withSpan (tryCatch (requestArticles settings options)
            (settleFailure platform circuitState)) : Job ArticleList).run
        (VisitAt settings circuit) t by
    refine Host.wp_mono (hmain _ ⟨h.checked, h.attempts, ?_, h.kept⟩) fun r t1 h1 => ?_
    · exact classified_cons_none h.classified rfl
    · exact Visit.cons h1 rfl rfl rfl
  clear h
  intro t h
  rw [Host.wp_run_bind]
  refine Watched.wp_throwIfAborted ?_
  cases t.state.aborted .request
  · rw [if_neg (by simp), Host.afterOk_ok, Host.wp_run_bind]
    have hfresh : Fresh circuit
        ⟨t.state, .did (.aborted .request) false t.state t.state :: t.log⟩ :=
      ⟨h.checked, h.attempts, classified_cons_none h.classified rfl, h.kept⟩
    refine Host.wp_mono (wp_checkCircuit_visit hfresh) fun r t1 h1 => ?_
    cases r with
    | error error => exact h1
    | ok circuitState =>
      rw [Host.afterOk_ok]
      refine wp_withSpan_visit (Q := VisitAt settings circuit) ?_ ?_ ?_ ?_
      · rw [Host.wp_run_tryCatch]
        refine Host.wp_mono (wp_requestArticles_visit h1) fun r t2 h2 => ?_
        cases r with
        | ok articles => exact Decided.visit h2
        | error err =>
          exact Host.wp_mono (wp_settleFailure_visit h2.1 h2.2) fun _ _ h => Decided.visit h
      · exact fun r t h => Visit.cons h rfl rfl rfl
      · exact fun r t h => Visit.cons h rfl rfl rfl
      · exact fun r t t' h hr => VisitAt.rely h hr
  · exact .leftOut h.checked h.attempts h.kept

end NewsApi.Providers
