import NewsApi.Providers.Verdict
import NewsApi.Services.NewsService

/-! # A cancelled load leaves no trace

A load whose client or whose process aborts before the outcome of its upstream
work is classified sends nothing more to the provider, counts no failure, does
not touch the cache, and ends as cancelled. -/
namespace NewsApi.Services
open NewsApi.Async NewsApi.Text NewsApi.Types NewsApi.Config NewsApi.Errors
open NewsApi.Runtime NewsApi.Providers

/-- No attempt of a cancelled load, no command for the store, and no change of
the failure counter. -/
def Traceless : Act Command Reply View → Prop
  | .did _ _ v v' => v'.sh.circuit.failures = v.sh.circuit.failures
  | .sent (.axiosGet _) v => cancelled v = false
  | .sent (.storeGet _) _ | .sent (.storeSet _ _ _) _ | .sent (.storeDelete _) _ => False
  | _ => True

def Clean (log : Log) : Prop := ∀ a ∈ log, Traceless a

/-- The search comes to the circuit check, which rejects it. -/
def rejects : Act Command Reply View → Bool
  | .did .assertCircuitAllowsRequest (.error _) _ _ => true
  | _ => false

/-- The search was turned away at the circuit, or its outcome was classified
before it was cancelled. -/
def OutOfReach (log : Log) : Prop :=
  log.any rejects = true ∨ ∃ v, classified log = some v ∧ cancelled v = false

/-- A look at the combined signal finds it quiet. -/
def FoundQuiet : Act Command Reply View → Prop
  | .did (.aborted .request) aborted _ _ => aborted = false
  | _ => True

def Unaborted (log : Log) : Prop := ∀ a ∈ log, FoundQuiet a

def loadContract : Contract Scene where
  inv t := OutOfReach t.log ∨ Clean t.log
  rely t t' := t'.log = t.log
  atLoop t := OutOfReach t.log ∨ Unaborted t.log
  rely_refl _ := rfl
  rely_trans h h' := h'.trans h

variable {settings : Settings} {platform : Platform} {honest : Bool} {key : JsString}
  {a : Act Command Reply View} {log : Log} {t : Scene} {α : Type}

theorem OutOfReach.cons (h : OutOfReach log) : OutOfReach (a :: log) := by
  rcases h with h | ⟨v, h, hv⟩
  · exact .inl (by simp [h])
  · exact .inr ⟨v, classified_cons_some h, hv⟩

theorem Clean.cons (h : Clean log) (ha : Traceless a) : Clean (a :: log) :=
  List.forall_mem_cons.mpr ⟨ha, h⟩

theorem Unaborted.cons (h : Unaborted log) (ha : FoundQuiet a) : Unaborted (a :: log) :=
  List.forall_mem_cons.mpr ⟨ha, h⟩

theorem only_any (p : Prog Command Reply α) : p.Only fun _ => True := by
  induction p with
  | pure a => trivial
  | call c k ih => exact ⟨trivial, ih⟩
  | iter body b k ihb ihk => exact ⟨ihb, ihk⟩

/-- Whatever is done afterwards. -/
theorem wp_outOfReach {x : Job α} (h : OutOfReach t.log) :
    (jobHost settings honest).traced.wp loadContract x.run
      (fun _ (t : Scene) => OutOfReach t.log) t := by
  refine Host.wp_only (P := fun t : Scene => OutOfReach t.log) (only_any x.run) ?_ ?_ ?_ ?_ ?_ h
  · exact fun s hs => ⟨.inl hs, .inl hs⟩
  · intro s s' hs hr _
    rw [hr]
    exact hs
  · intro c s r s' _ hs hn
    obtain ⟨next, -, heq⟩ := Option.map_eq_some_iff.mp hn
    cases heq
    exact hs.cons
  · exact fun c s _ hs _ => hs.cons
  · intro c r s s' _ hs hr
    obtain ⟨v, -, rfl⟩ := Option.map_eq_some_iff.mp hr
    exact hs.cons

/-! ## Before the outcome is classified -/

theorem not_cancelled {v : View} (h : v.aborted .request = false) : cancelled v = false := by
  cases hc : cancelled v with
  | false => rfl
  | true => rw [cancelled_request hc] at h; cases h

structure Pending (log : Log) : Prop where
  clean : Clean log
  classified : classified log = none

theorem Pending.cons (h : Pending log) (ha : Traceless a) (hc : classifies a = none) :
    Pending (a :: log) :=
  ⟨h.clean.cons ha, classified_cons_none h.classified hc⟩

/-- Pending, and only a signal that was found aborted ends a block with an error. -/
def PendingPost (r : Except JsError α) (t : Scene) : Prop :=
  Pending t.log ∧ ∀ a, r = .ok a → Unaborted t.log

theorem pendingPost_error {e : JsError} (h : Pending t.log) :
    PendingPost (.error e : Except JsError α) t :=
  ⟨h, fun _ he => nomatch he⟩

theorem wp_throwIfAborted_pending (h : Pending t.log) (hu : Unaborted t.log) :
    (jobHost settings honest).traced.wp loadContract (throwIfAborted .request).run
      (fun r t => PendingPost r t ∧ ∀ e, r = .error e → isRequestAbortedError e = true) t := by
  refine Watched.wp_throwIfAborted ?_
  cases t.state.aborted .request
  · exact ⟨⟨h.cons rfl rfl, fun _ _ => hu.cons rfl⟩, nofun⟩
  · exact ⟨pendingPost_error (h.cons rfl rfl), fun _ he => Except.error.inj he ▸ rfl⟩

/-- A span keeps what is known of a block. -/
theorem wp_withSpan_pending {operation : Job α}
    (h : (jobHost settings honest).traced.wp loadContract operation.run PendingPost t) :
    (jobHost settings honest).traced.wp loadContract (withSpan operation).run PendingPost t := by
  refine Watched.wp_withSpan (Host.wp_mono h fun r t1 h1 => ?_)
  have hsent : Pending (.sent .tick t1.state :: t1.log) := h1.1.cons trivial rfl
  refine ⟨.inr hsent.clean, fun t2 hr _ => ?_⟩
  change t2.log = _ at hr
  refine ⟨?_, fun a ha => ?_⟩
  · rw [hr]
    exact hsent.cons trivial rfl
  · rw [hr]
    exact .cons (.cons (h1.2 a ha) trivial) trivial

theorem wp_retrySleep_pending {delayMs : Nat} (h : Pending t.log) (hu : Unaborted t.log) :
    (jobHost settings honest).traced.wp loadContract
      (withSpan (sleep delayMs .request)).run PendingPost t := by
  refine wp_withSpan_pending ?_
  rw [sleep, Host.wp_run_bind]
  refine Host.wp_mono (wp_throwIfAborted_pending h hu) ?_
  intro r t1 h1
  cases r with
  | error e => exact h1.1
  | ok _ =>
    rw [Host.afterOk_ok]
    have hsent : Pending (.sent (.sleep delayMs .request) t1.state :: t1.log) :=
      h1.1.1.cons trivial rfl
    refine Watched.wp_await (c := .sleep delayMs .request) rfl (.inr hsent.clean)
      fun t2 hr _ r v _ => ?_
    change t2.log = _ at hr
    refine ⟨?_, fun a ha => ?_⟩
    · rw [hr]
      exact hsent.cons trivial rfl
    · rw [hr]
      exact .cons (.cons (h1.1.2 _ rfl) trivial) trivial

theorem wp_afterFailedAttempt_pending {attempt : Nat} {err : JsError} {T : Type}
    (h : Pending t.log) (hu : isRequestAbortedError err = true ∨ Unaborted t.log) :
    (jobHost settings honest).traced.wp loadContract
      (afterFailedAttempt (T := T) settings .request attempt err).run PendingPost t := by
  refine Watched.wp_ask rfl ?_
  have hlooked : Pending (.did (.aborted .request) (t.state.aborted .request) t.state t.state ::
      t.log) := h.cons rfl rfl
  split
  · exact pendingPost_error hlooked
  · rename_i hab
    simp only [Bool.or_eq_true, not_or, Bool.not_eq_true] at hab
    obtain ⟨hquiet, herr⟩ := hab
    have hu : Unaborted t.log := by simpa [herr] using hu
    split
    · exact pendingPost_error hlooked
    · refine Watched.wp_ask rfl ?_
      rw [Host.wp_run_bind]
      refine Host.wp_mono (wp_retrySleep_pending (hlooked.cons rfl rfl) ?_) ?_
      · exact .cons (.cons hu hquiet) trivial
      · intro r t1 h1
        cases r with
        | error e => exact pendingPost_error h1.1
        | ok _ => exact ⟨h1.1, fun _ _ => h1.2 _ rfl⟩

theorem wp_withUpstreamRetries_pending {options : ArticleSearchOptions} (h : Pending t.log)
    (hu : Unaborted t.log) :
    (jobHost settings honest).traced.wp loadContract
      (withUpstreamRetries settings (axiosGet settings options) .request).run
      (fun _ t => Pending t.log) t := by
  refine Host.wp_run_loop (fun _ t => Pending t.log ∧ Unaborted t.log) ⟨h, hu⟩
    (fun _ t h => ⟨.inr h.1.clean, .inr h.2⟩) ?_ fun attempt t1 h1 => ?_
  · intro _ t1 t2 h1 hr _
    change t2.log = t1.log at hr
    rw [hr]
    exact h1
  have hretry : ∀ {e : JsError} {t : Scene}, Pending t.log →
      isRequestAbortedError e = true ∨ Unaborted t.log →
      (jobHost settings honest).traced.wp loadContract
        (afterFailedAttempt (T := Json) settings .request attempt e).run
        (Host.roundOutcome (fun _ t => Pending t.log ∧ Unaborted t.log)
          (fun _ t => Pending t.log)) t := by
    intro e t h hu
    refine Host.wp_mono (wp_afterFailedAttempt_pending h hu) fun r t2 h2 => ?_
    rcases r with e | n | data
    · exact h2.1
    · exact ⟨h2.1, h2.2 _ rfl⟩
    · exact h2.1
  rw [Host.wp_run_tryCatch, Host.wp_run_bind]
  refine Watched.wp_throwIfAborted ?_
  cases hab : t1.state.aborted .request
  · rw [if_neg (by simp), Host.afterOk_ok, Host.wp_run_bind]
    have hsent : Pending (.sent (.axiosGet (toProviderParams settings options)) t1.state ::
        .did (.aborted .request) false t1.state t1.state :: t1.log) :=
      .cons (.cons h1.1 rfl rfl) (not_cancelled hab) rfl
    refine Watched.wp_await (c := .axiosGet (toProviderParams settings options)) rfl
      (.inr hsent.clean) fun t2 hr _ r v _ => ?_
    change t2.log = _ at hr
    have hanswered : Pending (.answered (.axiosGet (toProviderParams settings options)) r v ::
        t2.log) := by
      rw [hr]
      exact hsent.cons trivial rfl
    cases r with
    | ok data => exact hanswered
    | error e =>
      refine hretry hanswered (.inr ?_)
      rw [hr]
      exact .cons (.cons (.cons h1.2 rfl) trivial) trivial
  · rw [if_pos rfl]
    exact hretry (h1.1.cons rfl rfl) (.inl rfl)

/-! ## From the classification on -/

/-- A cancelled search ends as cancelled and clean. -/
def Cancelled (r : Except JsError α) (t : Scene) : Prop :=
  OutOfReach t.log ∨ Clean t.log ∧ r = .error .requestAborted

theorem Cancelled.inv {r : Except JsError α} (h : Cancelled r t) : loadContract.inv t :=
  h.imp_right And.left

theorem wp_requestArticles_pending {options : ArticleSearchOptions} (h : Pending t.log)
    (hu : Unaborted t.log) :
    (jobHost settings honest).traced.wp loadContract (requestArticles settings options).run
      (fun r t => match r with
        | .ok _ => OutOfReach t.log
        | .error _ => Pending t.log) t := by
  rw [requestArticles, Host.wp_run_bind]
  refine Host.wp_mono (wp_withUpstreamRetries_pending h hu) fun r t1 h1 => ?_
  cases r with
  | error e => exact h1
  | ok data =>
    rw [Host.afterOk_ok, Host.wp_run_bind]
    refine Watched.wp_throwIfAborted ?_
    cases hab : t1.state.aborted .request
    · rw [if_neg (by simp), Host.afterOk_ok, Host.wp_run_bind, Host.wp_run_ofExcept]
      have hlooked : Pending (.did (.aborted .request) false t1.state t1.state :: t1.log) :=
        h1.cons rfl rfl
      cases normalizeArticles data with
      | error e => exact hlooked
      | ok articles =>
        refine Watched.wp_ask rfl (.inr ⟨t1.state, ?_, not_cancelled hab⟩)
        exact classified_cons hlooked.classified
    · exact h1.cons rfl rfl

theorem wp_settleFailure_pending {st : CircuitRequestState} {err : JsError} (h : Pending t.log) :
    (jobHost settings honest).traced.wp loadContract (settleFailure platform st err).run
      Cancelled t := by
  refine Watched.wp_ask rfl ?_
  have hdecided : classified (.did (.aborted .deadline) (t.state.aborted .deadline) t.state
      t.state :: t.log) = some t.state := classified_cons h.classified
  cases hc : cancelled t.state with
  | false =>
    exact Host.wp_mono (wp_outOfReach (.inr ⟨t.state, hdecided, hc⟩)) fun r t1 h1 => .inl h1
  | true =>
    have hclean : Clean (.did (.aborted .deadline) (t.state.aborted .deadline) t.state
        t.state :: t.log) := h.clean.cons rfl
    refine Watched.wp_ask rfl (Watched.wp_ask rfl ?_)
    have hsignals : (t.state.aborted .deadline && !t.state.aborted .client &&
        !t.state.aborted .shutdown) = false := by
      rcases Bool.or_eq_true_iff.mp hc with hc | hc <;> simp [View.aborted, hc]
    rw [hsignals, if_neg (by simp)]
    refine Watched.wp_ask rfl ?_
    rw [if_pos (by simp [cancelled_request hc])]
    refine Watched.wp_ask rfl (.inr ⟨?_, rfl⟩)
    refine .cons (.cons (.cons (.cons hclean rfl) rfl) rfl) ?_
    cases st <;> rfl

theorem Cancelled.cons {r : Except JsError α} {v : View} (h : Cancelled r t) (ha : Traceless a) :
    Cancelled r ⟨v, a :: t.log⟩ :=
  h.imp .cons fun h => ⟨h.1.cons ha, h.2⟩

theorem wp_withSpan_cancelled {operation : Job α}
    (h : (jobHost settings honest).traced.wp loadContract operation.run Cancelled t) :
    (jobHost settings honest).traced.wp loadContract (withSpan operation).run Cancelled t := by
  refine Watched.wp_withSpan (Host.wp_mono h fun r t1 h1 => ?_)
  have hsent : Cancelled r ⟨t1.state, .sent .tick t1.state :: t1.log⟩ := h1.cons trivial
  refine ⟨hsent.inv, fun t2 hr _ => ?_⟩
  change t2.log = _ at hr
  rw [hr]
  exact hsent.cons trivial

theorem wp_checkCircuit_pending (h : Pending t.log) (hu : Unaborted t.log) :
    (jobHost settings honest).traced.wp loadContract
      (withSpan do AsyncM.ofExcept (← ask .assertCircuitAllowsRequest)).run
      (fun r t => match r with
        | .ok _ => Pending t.log ∧ Unaborted t.log
        | .error _ => OutOfReach t.log) t := by
  obtain ⟨p, hp⟩ : ∃ p, assertCircuitAllowsRequest settings t.state.sh.clock
    t.state.sh.circuit = p := ⟨_, rfl⟩
  have hn : now settings .assertCircuitAllowsRequest t.state =
      some (p.1, t.state.circuitStep (.check p.1) p.2) := by rw [← hp]; rfl
  refine Watched.wp_withSpan (Watched.wp_ask hn ?_)
  have hcount : (t.state.circuitStep (.check p.1) p.2).sh.circuit.failures =
      t.state.sh.circuit.failures := by
    rw [← assert_failures settings t.state.sh.clock t.state.sh.circuit, hp]
    rfl
  rcases p with ⟨e | st, circuit⟩
  · have hrejected : OutOfReach (.did .assertCircuitAllowsRequest (.error e) t.state
        (t.state.circuitStep (.check (.error e)) circuit) :: t.log) :=
      .inl (by simp [rejects])
    refine ⟨.inl hrejected.cons, fun t1 hr _ => ?_⟩
    change t1.log = _ at hr
    rw [hr]
    exact hrejected.cons.cons
  · have hadmitted : Pending (.sent .tick (t.state.circuitStep (.check (.ok st)) circuit) ::
        .did .assertCircuitAllowsRequest (.ok st) t.state
          (t.state.circuitStep (.check (.ok st)) circuit) :: t.log) :=
      .cons (.cons h hcount rfl) trivial rfl
    refine ⟨.inr hadmitted.clean, fun t1 hr _ => ?_⟩
    change t1.log = _ at hr
    rw [hr]
    exact ⟨hadmitted.cons trivial rfl, .cons (.cons (.cons hu trivial) trivial) trivial⟩

theorem wp_search_cancelled {options : ArticleSearchOptions} (h : Pending t.log)
    (hu : Unaborted t.log) :
    (jobHost settings honest).traced.wp loadContract (search settings platform options).run
      Cancelled t := by
  refine Watched.wp_ask rfl ?_
  rw [Host.wp_run_withFinally]
  -- `deadline.cancel()` comes after whatever the search has come to
  suffices hmain : ∀ t : Scene, Pending t.log → Unaborted t.log →
      (jobHost settings honest).traced.wp loadContract
        (do
          throwIfAborted .request
          let circuitState ← withSpan do AsyncM.ofExcept (← ask .assertCircuitAllowsRequest)
          withSpan (tryCatch (requestArticles settings options)
            (settleFailure platform circuitState)) : Job ArticleList).run Cancelled t by
    refine Host.wp_mono (hmain _ (h.cons rfl rfl) (hu.cons trivial)) fun r t1 h1 => ?_
    exact Cancelled.cons h1 rfl
  clear h hu
  intro t h hu
  rw [Host.wp_run_bind]
  refine Watched.wp_throwIfAborted ?_
  cases t.state.aborted .request
  · rw [if_neg (by simp), Host.afterOk_ok, Host.wp_run_bind]
    refine Host.wp_mono (wp_checkCircuit_pending (h.cons rfl rfl) (hu.cons rfl)) fun r t1 h1 => ?_
    cases r with
    | error e => exact .inl h1
    | ok st =>
      rw [Host.afterOk_ok]
      refine wp_withSpan_cancelled ?_
      rw [Host.wp_run_tryCatch]
      refine Host.wp_mono (wp_requestArticles_pending h1.1 h1.2) fun r t2 h2 => ?_
      cases r with
      | error err => exact wp_settleFailure_pending h2
      | ok articles => exact .inl h2
  · exact .inr ⟨h.clean.cons rfl, rfl⟩

theorem wp_loadArticlesFromUpstream_cancelled {options : ArticleSearchOptions}
    (h : Pending t.log) (hu : Unaborted t.log) :
    (jobHost settings honest).traced.wp loadContract
      (loadArticlesFromUpstream settings platform options key).run Cancelled t := by
  have hafter : ∀ {x : Job ArticleSearchResult} {t : Scene}, OutOfReach t.log →
      (jobHost settings honest).traced.wp loadContract x.run Cancelled t := fun h =>
    Host.wp_mono (wp_outOfReach h) fun _ _ h => .inl h
  rw [loadArticlesFromUpstream, searchProvider, Host.wp_run_bind, Host.wp_run_attempt,
    Host.wp_run_bind, Host.wp_run_attempt]
  refine Host.wp_mono (wp_search_cancelled h hu) fun r t1 h1 => ?_
  rw [Host.afterOk_ok]
  rcases h1 with h1 | ⟨h1, rfl⟩
  · refine Host.wp_mono (wp_outOfReach h1) fun r t2 h2 => ?_
    rw [Host.afterOk_ok]
    exact hafter h2
  · refine Watched.wp_ask rfl ?_
    rw [Host.wp_run_bind, Host.wp_run_ofExcept]
    refine Watched.wp_ask rfl ?_
    rw [if_pos (by simp [isRequestAbortedError])]
    exact .inr ⟨.cons (.cons h1 rfl) rfl, rfl⟩

end NewsApi.Services
