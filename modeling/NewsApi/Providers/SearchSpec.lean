import NewsApi.Providers.CircuitHistory
import NewsApi.Providers.GNewsProvider

/-! # What one search does to the circuit

Whatever other searches do meanwhile, a search checks the circuit once, and an
admitted search settles with it at most once, at the end; a probe always does.
The proof follows the program text. -/
namespace NewsApi.Providers
open NewsApi.Async NewsApi.Types NewsApi.Config NewsApi.Errors NewsApi.Runtime

/-- What the running search has done to the circuit. -/
def View.ops (v : View) : List CircuitOp := opsOf v.sh.history v.lo.id

/-- Other searches may do anything except act in this search's name. -/
def searchContract : Contract View where
  inv v := Legal (View.ops v)
  rely v v' := View.ops v' = View.ops v
  atLoop _ := True
  rely_refl _ := rfl
  rely_trans h h' := h'.trans h

/-- How a search may end, by what it did to the circuit. -/
def Settled : List CircuitOp → Except JsError ArticleList → Prop
  | [], result => result = .error .requestAborted
  | [.check (.error error)], result => result = .error error
  | [.check (.ok st)], result => st = .closed ∧
      ∃ error, shouldRecordProviderFailure error = false ∧ ∃ e, result = .error e
  | [.close, .check (.ok st)], result =>
      (∃ articles, result = .ok articles) ∨ st = .halfOpen ∧ ∃ e, result = .error e
  | [.failure, .check (.ok _)], result => ∃ e, result = .error e
  | [.cancel st, .check (.ok st')], result => st = st' ∧ result = .error .requestAborted
  | _, _ => False

variable {settings : Settings} {platform : Platform} {honest : Bool} {v : View}
  {l : List CircuitOp} {st : CircuitRequestState}

theorem ops_of_frame {v v' : View} (hs : v'.sh = v.sh) (hid : v'.lo.id = v.lo.id) :
    View.ops v' = View.ops v := by
  rw [View.ops, View.ops, hs, hid]

@[simp] theorem ops_circuitStep (op : CircuitOp) (circuit : CircuitState) :
    View.ops (v.circuitStep op circuit) = op :: View.ops v :=
  opsOf_cons_self ⟨v.lo.id, v.sh.clock, op⟩ v.sh.history

/-! ## The quiet part -/

theorem wp_quiet {α : Type} {x : Job α} (hx : AsyncM.Only Command.LeavesCircuit x) (hl : Legal l)
    (hv : View.ops v = l) :
    (jobHost settings honest).wp searchContract x.run (fun _ v => View.ops v = l) v := by
  refine Host.wp_only hx ?_ ?_ ?_ ?_ ?_ hv
  · intro s hs
    exact ⟨by rw [← hs] at hl; exact hl, trivial⟩
  · intro s s' hs hr _
    exact hr.trans hs
  · intro c s r s' hc hs hn
    exact (ops_of_frame (now_leavesCircuit hn hc) (now_id hn)).trans hs
  · intro c s _ hs _
    exact (ops_of_frame issue_sh issue_id).trans hs
  · intro c r s s' _ hs hr
    exact (ops_of_frame (reply_frame hr).1 (reply_frame hr).2).trans hs

section
variable {A : Command → Prop}

theorem only_ask {c : Command} (hc : A c) : AsyncM.Only A (ask c) := .lift (.command hc)

theorem only_throwIfAborted {signal : Signal} (ha : A (.aborted signal)) :
    AsyncM.Only A (throwIfAborted signal) :=
  .bind (only_ask ha) fun _ => .ite (.throw _) (.pure _)

theorem only_withSpan {α : Type} {x : Job α} (ht : A .tick) (hx : AsyncM.Only A x) :
    AsyncM.Only A (withSpan x) :=
  .bind hx.attempt fun r => .bind (only_ask ht) fun _ => .ofExcept r

theorem only_sleep {delayMs : Nat} {signal : Signal} (ha : A (.aborted signal))
    (hs : A (.sleep delayMs signal)) : AsyncM.Only A (sleep delayMs signal) :=
  .bind (only_throwIfAborted ha) fun _ => Prog.Only.command hs

theorem only_withUpstreamRetries {T : Type} {operation : Job T} {signal : Signal}
    (ha : A (.aborted signal)) (hr : A .random) (hs : ∀ delayMs, A (.sleep delayMs signal))
    (ht : A .tick) (hx : AsyncM.Only A operation) :
    AsyncM.Only A (withUpstreamRetries settings operation signal) := by
  refine .loop fun attempt => .tryCatch ?_ fun error => ?_
  · exact .bind (only_throwIfAborted ha) fun _ => .bind hx fun _ => .pure _
  · refine .bind (only_ask ha) fun aborted => .ite (.throw _) (.ite (.throw _) ?_)
    refine .bind (only_ask hr) fun random => ?_
    exact .bind (only_withSpan ht (only_sleep ha (hs _))) fun _ => .pure _

end

/-! ## The settling part -/

theorem wp_requestArticles {options : ArticleSearchOptions}
    (hv : View.ops v = [.check (.ok st)]) :
    (jobHost settings honest).wp searchContract (requestArticles settings options).run
      (fun r v => match r with
        | .ok _ => View.ops v = [.close, .check (.ok st)]
        | .error _ => View.ops v = [.check (.ok st)]) v := by
  have hquiet : AsyncM.Only Command.LeavesCircuit
      (withUpstreamRetries settings (axiosGet settings options) .request) :=
    only_withUpstreamRetries trivial trivial (fun _ => trivial) trivial
      (Prog.Only.command trivial)
  rw [requestArticles, Host.wp_run_bind]
  refine Host.wp_mono (wp_quiet hquiet (.checked _) hv) ?_
  rintro (e | data) v1 h1
  · exact h1
  · rw [Host.afterOk_ok, Host.wp_run_bind]
    refine wp_throwIfAborted ?_
    cases hab : v1.aborted .request
    · rw [if_neg (by simp), Host.afterOk_ok, Host.wp_run_bind, Host.wp_run_ofExcept]
      cases normalizeArticles data with
      | error e => exact h1
      | ok articles =>
        refine wp_ask rfl ?_
        simp [h1]
    · exact h1

/-- The error that is rethrown leaves the circuit as it is. -/
theorem wp_rethrow {err : JsError} {Q : Except JsError ArticleList → View → Prop}
    (hq : ∀ e, Q (.error e) v) :
    (jobHost settings honest).wp searchContract
      (match err with
        | .axios error => do throw (mapAxiosError platform (← ask .dateNow) error)
        | err => throw err : Job ArticleList).run Q v := by
  cases err with
  | axios error => exact wp_ask rfl (hq _)
  | _ => exact hq _

theorem wp_settleFailure {err : JsError} (hv : View.ops v = [.check (.ok st)]) :
    (jobHost settings honest).wp searchContract (settleFailure platform st err).run
      (fun r v => Legal (View.ops v) ∧ Settled (View.ops v) r) v := by
  refine wp_ask rfl (wp_ask rfl (wp_ask rfl ?_))
  simp only []
  split
  · -- the total deadline fired first
    refine wp_ask rfl (wp_ask rfl ?_)
    simpa [hv, Settled] using Legal.failed st
  · refine wp_ask rfl ?_
    split
    · refine wp_ask rfl ?_
      simpa [hv, Settled] using Legal.canceled st
    · split
      · refine wp_ask rfl (wp_rethrow fun e => ?_)
        simpa [hv, Settled] using Legal.failed st
      · rename_i hrecord
        split
        · rename_i hopen
          refine wp_ask rfl (wp_rethrow fun e => ?_)
          simpa [hv, hopen, Settled] using Legal.closed .halfOpen
        · rename_i hclosed
          have hst : st = .closed := by
            cases st with
            | closed => rfl
            | halfOpen => exact absurd rfl hclosed
          refine wp_rethrow fun e => ?_
          rw [hv]
          exact ⟨.checked _, hst, err, by simpa using hrecord, e, rfl⟩

theorem wp_checkCircuit (hv : View.ops v = []) :
    (jobHost settings honest).wp searchContract
      (withSpan do AsyncM.ofExcept (← ask .assertCircuitAllowsRequest)).run
      (fun r v => View.ops v = [.check r]) v := by
  obtain ⟨p, hp⟩ : ∃ p, assertCircuitAllowsRequest settings v.sh.clock v.sh.circuit = p := ⟨_, rfl⟩
  have hn : now settings .assertCircuitAllowsRequest v =
      some (p.1, v.circuitStep (.check p.1) p.2) := by rw [← hp]; rfl
  have hops : View.ops (v.circuitStep (.check p.1) p.2) = [.check p.1] := by
    rw [ops_circuitStep, hv]
  refine wp_withSpan (wp_ask hn ?_)
  refine ⟨?_, fun v' hr _ => hr.trans hops⟩
  show Legal (View.ops _)
  rw [hops]
  exact .checked _

/-- The whole search, from before its check to its outcome. -/
theorem wp_search {options : ArticleSearchOptions} (hv : View.ops v = []) :
    (jobHost settings honest).wp searchContract (search settings platform options).run
      (fun r v => Legal (View.ops v) ∧ Settled (View.ops v) r) v := by
  refine wp_ask rfl ?_
  rw [Host.wp_run_withFinally]
  -- `deadline.cancel()` changes neither the outcome nor the circuit
  suffices h : ∀ v : View, View.ops v = [] → (jobHost settings honest).wp searchContract
      (do
        throwIfAborted .request
        let circuitState ← withSpan do AsyncM.ofExcept (← ask .assertCircuitAllowsRequest)
        withSpan (tryCatch (requestArticles settings options)
          (settleFailure platform circuitState)) : Job ArticleList).run
      (fun r v => Legal (View.ops v) ∧ Settled (View.ops v) r) v by
    refine Host.wp_mono (h _ hv) fun r v1 h1 => ?_
    exact h1
  intro v hv
  rw [Host.wp_run_bind]
  refine wp_throwIfAborted ?_
  cases hab : v.aborted .request
  · rw [if_neg (by simp), Host.afterOk_ok, Host.wp_run_bind]
    refine Host.wp_mono (wp_checkCircuit hv) ?_
    rintro (error | st) v1 h1
    · rw [Host.afterOk_error, h1]
      exact ⟨.checked _, rfl⟩
    · rw [Host.afterOk_ok]
      refine wp_withSpan ?_
      rw [Host.wp_run_tryCatch]
      refine Host.wp_mono (wp_requestArticles h1) ?_
      rintro (err | articles) v2 h2
      · refine Host.wp_mono (wp_settleFailure h2) fun r v3 h3 => ?_
        exact ⟨h3.1, fun v' hr _ => by rw [hr]; exact h3⟩
      · have hl : Legal (View.ops v2) := by rw [h2]; exact .closed st
        have hs : Settled (View.ops v2) (.ok articles) := by rw [h2]; exact .inl ⟨articles, rfl⟩
        exact ⟨hl, fun v' hr _ => by rw [hr]; exact ⟨hl, hs⟩⟩
  · rw [if_pos rfl, Host.afterOk_error, hv]
    exact ⟨.fresh, rfl⟩

end NewsApi.Providers
