import NewsApi.Redis.CommandWaits

/-! # The gate in front of Redis commands settles once

What holds of every call in every state, what an emission does that is carried
through, and that every call comes to its end. -/
namespace NewsApi.Redis.CommandRunner
open NewsApi.Async

variable {ε α : Type} {connectTimeoutMs : Nat} {s t : State ε α} {i : Nat} {c : Call ε α}

theorem inv_of_reachable {status : Status}
    (h : Reachable (step connectTimeoutMs) (.initial status) s) : Inv s :=
  h.invariant (initial_inv status) fun _ _ _ hinv hstep => hinv.step hstep

/-! ## Calls in time -/

/-- What a step can do to a call. -/
structure Call.Later (c c' : Call ε α) : Prop where
  opening : c'.opening = c.opening
  sources : c.sources <+: c'.sources
  settlements : c.settlements <+: c'.settlements

theorem Call.Later.refl (c : Call ε α) : c.Later c :=
  ⟨rfl, List.prefix_refl _, List.prefix_refl _⟩

theorem Call.Later.trans {c1 c2 c3 : Call ε α} (h : c1.Later c2) (h' : c2.Later c3) :
    c1.Later c3 :=
  ⟨h'.opening.trans h.opening, h.sources.trans h'.sources, h.settlements.trans h'.settlements⟩

/-- Calls stay, and their continuations are queued behind each other. -/
structure State.Later (s t : State ε α) : Prop where
  calls : ∀ (i : Nat) c, s.calls[i]? = some c → ∃ c', t.calls[i]? = some c' ∧ c.Later c'
  microtasks : s.microtasks <+: t.microtasks

theorem State.Later.of_same (hcalls : t.calls = s.calls)
    (hmicrotasks : t.microtasks = s.microtasks) : s.Later t :=
  ⟨fun _ c hc => ⟨c, by rw [hcalls, hc], .refl c⟩, hmicrotasks ▸ List.prefix_refl _⟩

theorem State.Later.trans {s1 s2 s3 : State ε α} (h : s1.Later s2) (h' : s2.Later s3) :
    s1.Later s3 := by
  refine ⟨fun i c hc => ?_, h.microtasks.trans h'.microtasks⟩
  obtain ⟨c2, hc2, h2⟩ := h.calls i c hc
  obtain ⟨c3, hc3, h3⟩ := h'.calls i c2 hc2
  exact ⟨c3, hc3, h2.trans h3⟩

/-- One call changes. -/
theorem later_modify {calls : List (Call ε α)} {f : Call ε α → Call ε α}
    (hf : ∀ c : Call ε α, c.Later (f c)) (hc : calls[i]? = some c) (j : Nat) :
    ∃ c', (calls.modify j f)[i]? = some c' ∧ c.Later c' := by
  by_cases hij : j = i
  · exact ⟨f c, by simp [hij, hc], hf c⟩
  · exact ⟨c, by simp [hij, hc], .refl c⟩

theorem State.Later.of_modify {f : Call ε α → Call ε α} (hcalls : t.calls = s.calls.modify i f)
    (hf : ∀ c : Call ε α, c.Later (f c)) (hmicrotasks : s.microtasks <+: t.microtasks) :
    s.Later t := by
  refine ⟨fun j c hc => ?_, hmicrotasks⟩
  rw [hcalls]
  exact later_modify hf hc i

theorem later_settle (i : Nat) (result : Except String Unit) (s : State ε α) :
    s.Later (settle i result s) := by
  refine .of_modify rfl (fun c => ⟨rfl, List.prefix_refl _, List.prefix_append _ _⟩) ?_
  rw [settle]
  split
  · exact List.prefix_append _ _
  · exact List.prefix_refl _

theorem later_finish (i : Nat) (outcome : Outcome) (error : Option String) (s : State ε α) :
    s.Later (finish i outcome error s) := by
  unfold finish
  split
  · exact .of_same rfl rfl
  · have hflag : s.Later (clearTimeout i { s with
        calls := s.calls.modify i fun c => { c with settled := true }
        client := (s.client.off .ready (.onReady i)).off .ended (.onEnd i) }) :=
      .of_modify rfl (fun _ => ⟨rfl, List.prefix_refl _, List.prefix_refl _⟩)
        (List.prefix_refl _)
    cases outcome with
    | ready => exact hflag.trans (later_settle _ _ _)
    | error => exact hflag.trans (later_settle _ _ _)

theorem later_notify (i : Nat) (source : Source) (s : State ε α) :
    s.Later (notify i source s) := by
  have hreached : s.Later { s with
      calls := s.calls.modify i fun c => { c with sources := c.sources ++ [source] } } :=
    .of_modify rfl (fun _ => ⟨rfl, List.prefix_append _ _, List.prefix_refl _⟩)
      (List.prefix_refl _)
  cases source with
  | ready => exact hreached.trans (later_finish i .ready none _)
  | ended => exact hreached.trans (later_finish i .error (some "Redis connection closed") _)
  | timeout => exact hreached.trans (later_finish i .error (some "Redis connection timed out") _)

theorem later_runCommand (connectTimeoutMs : Nat) (s : State ε α) :
    s.Later (runCommand connectTimeoutMs s) := by
  have hold : ∀ c (i : Nat) (c' : Call ε α), s.calls[i]? = some c' →
      ∃ c'', (s.calls ++ [c])[i]? = some c'' ∧ c'.Later c'' := by
    intro c i c' hc
    have hi := (List.getElem?_eq_some_iff.mp hc).1
    exact ⟨c', by rw [List.getElem?_append_left hi, hc], .refl c'⟩
  cases hverdict : verdict s.status none with
  | some result =>
    rw [runCommand_decided hverdict]
    exact ⟨hold _, List.prefix_append _ _⟩
  | none =>
    rw [runCommand_waits (verdict_none.mp hverdict)]
    exact ⟨hold _, List.prefix_refl _⟩

theorem later_callback (called : Option Closure) (s : State ε α) :
    s.Later (callback called s) := by
  cases called with
  | none => exact .of_same rfl rfl
  | some k =>
    cases k with
    | onReady call => exact later_notify call .ready s
    | onEnd call => exact later_notify call .ended s
    | other id => exact .of_same rfl rfl

/-- Only the turn of a continuation takes something from the queue. -/
theorem step_later {event : Event ε α} (h : step connectTimeoutMs s event = some t) :
    s.Later t ∨ ∃ call rest, event = .microtask ∧ s.microtasks = call :: rest ∧
      t = resume call { s with microtasks := rest } := by
  cases step_cases h with
  | runCommand => exact .inl (later_runCommand _ _)
  | @dispatch called client _ =>
    have hclient : s.Later { s with client } := .of_same rfl rfl
    exact .inl (hclient.trans (later_callback called _))
  | @timeout call _ =>
    have htimers : s.Later
        { s with timers := s.timers.filter fun timer => timer.call ≠ call } := .of_same rfl rfl
    exact .inl (htimers.trans (later_notify call .timeout _))
  | microtask hqueue => exact .inr ⟨_, _, rfl, hqueue, rfl⟩
  | commandSettles _ _ =>
    exact .inl (.of_modify rfl (fun _ => ⟨rfl, List.prefix_refl _, List.prefix_refl _⟩)
      (List.prefix_refl _))
  | _ => exact .inl (.of_same rfl rfl)

theorem step_calls {event : Event ε α} (h : step connectTimeoutMs s event = some t)
    (hc : s.calls[i]? = some c) : ∃ c', t.calls[i]? = some c' ∧ c.Later c' := by
  rcases step_later h with hlater | ⟨call, rest, -, -, rfl⟩
  · exact hlater.calls i c hc
  · exact later_modify (fun c => ⟨proceed_opening c, (proceed_sources c).symm ▸ List.prefix_refl _,
      (proceed_settlements c).symm ▸ List.prefix_refl _⟩) hc call

theorem run_calls {events : List (Event ε α)} (h : run (step connectTimeoutMs) s events = some t)
    (hc : s.calls[i]? = some c) : ∃ c', t.calls[i]? = some c' ∧ c.Later c' := by
  refine run_invariant (P := fun t => ∃ c', t.calls[i]? = some c' ∧ c.Later c') ?_
    ⟨c, hc, .refl c⟩ h
  rintro s1 event s2 ⟨c1, hc1, h1⟩ hstep
  obtain ⟨c2, hc2, h2⟩ := step_calls hstep hc1
  exact ⟨c2, hc2, h1.trans h2⟩

/-! ## Emissions that are carried through -/

def ClientEvent.source : ClientEvent → Source
  | .ready => .ready
  | .ended => .ended

theorem notify_cases {n : Nat} (hc : s.calls[i]? = some c) (hok : c.Ok n)
    (hopening : c.opening = .other) (source : Source) :
    (notify i source s).client.emissions = s.client.emissions ∧
      (∀ j, j ≠ i → (notify i source s).calls[j]? = s.calls[j]?) ∧
      ∃ c', (notify i source s).calls[i]? = some c' ∧ c'.sources = c.sources ++ [source] := by
  have hsettled := hok.settled hopening
  cases hwaiting : c.isWaiting with
  | false =>
    rw [notify_late hc (by simp [hsettled, hwaiting])]
    exact ⟨rfl, fun j hj => by simp [Ne.symm hj], _,
      by rw [List.getElem?_modify_eq, hc]; rfl, rfl⟩
  | true =>
    rw [notify_first hc (by simp [hsettled, hwaiting]) (List.isEmpty_iff.mp hwaiting)]
    exact ⟨rfl, fun j hj => by simp [Ne.symm hj], _,
      by rw [List.getElem?_modify_eq, hc]; rfl, rfl⟩

theorem callback_listener (e : ClientEvent) (i : Nat) (s : State ε α) :
    callback (some (listener e i)) s = notify i e.source s := by
  cases e <;> rfl

/-- By induction on the calls still to make: each settles its call, or finds it settled. -/
theorem emission_carried {e : ClientEvent} {rest : List (Registration Closure)}
    {outer : List (ClientEvent × List (Registration Closure))} (h : Inv s)
    (hemissions : s.client.emissions = (e, rest) :: outer)
    (hown : ∀ r ∈ rest, ∀ e' i, r.listener = listener e' i → e' = e)
    (hall : ∀ i ∈ s.waiting, ∃ r ∈ rest, r.listener = listener e i) :
    ∃ t, run (step connectTimeoutMs) s (List.replicate (rest.length + 1) .dispatch) = some t ∧
      t.client.emissions = outer ∧
      ∀ i ∈ s.waiting, ∃ c, t.calls[i]? = some c ∧ c.sources.head? = some e.source := by
  induction rest generalizing s with
  | nil =>
    have hdispatch : step connectTimeoutMs s .dispatch =
        some { s with client := { s.client with emissions := outer } } := by
      simp [step, Emitter.dispatch_over hemissions, callback]
    refine ⟨_, run_next hdispatch [], rfl, fun i hi => ?_⟩
    obtain ⟨r, hr, -⟩ := hall i hi
    cases hr
  | cons r rest ih =>
    obtain ⟨called, client, hd, hnext, hcalled⟩ := Emitter.dispatch_next hemissions
    have hdispatch : step connectTimeoutMs s .dispatch =
        some (callback called { s with client }) := by simp [step, hd]
    have hinv := h.step hdispatch
    have hrun : ∀ t, run (step connectTimeoutMs) (callback called { s with client })
        (List.replicate (rest.length + 1) .dispatch) = some t →
        run (step connectTimeoutMs) s (List.replicate ((r :: rest).length + 1) .dispatch) =
          some t := by
      intro t ht
      rw [List.length_cons, List.replicate_succ, run_next hdispatch, ht]
    have hown' : ∀ r ∈ rest, ∀ e' i, r.listener = listener e' i → e' = e := fun r hr =>
      hown r (List.mem_cons_of_mem _ hr)
    by_cases hlistener : ∃ j, called = some (listener e j)
    · obtain ⟨j, rfl⟩ := hlistener
      obtain ⟨r', hr', hl⟩ := Emitter.due_of_called hd
      obtain ⟨c, hc, hopening⟩ := h.due e j r' hr' hl
      rw [callback_listener] at hinv hrun
      obtain ⟨hsame, hothers, c', hc', hsources⟩ :=
        @notify_cases _ _ { s with client } j c _ hc (h.calls j c hc) hopening e.source
      have hsettled : j ∉ (notify j e.source { s with client }).waiting := by
        intro hmem
        obtain ⟨c1, hc1, hnil⟩ := mem_waiting.mp hmem
        cases hc'.symm.trans hc1
        have hnone := (hinv.calls j c' hc').no_sources hnil
        simp [hsources] at hnone
      have hkept : ∀ i, i ≠ j →
          (i ∈ (notify j e.source { s with client }).waiting ↔ i ∈ s.waiting) := fun i hij => by
        simp only [State.waiting, mem_waiting, hothers i hij]
      obtain ⟨t, ht, houter, hreached⟩ := ih hinv (hsame.trans hnext) hown' fun i hi => by
        have hij : i ≠ j := ne_of_mem_of_not_mem hi hsettled
        obtain ⟨r1, hr1, hl1⟩ := hall i ((hkept i hij).mp hi)
        rcases List.mem_cons.mp hr1 with rfl | hr1
        · rcases hcalled with hcalled | ⟨hcalled, -⟩
          · rw [hl1] at hcalled
            cases e <;> cases hcalled <;> exact absurd rfl hij
          · cases hcalled
        · exact ⟨r1, hr1, hl1⟩
      refine ⟨t, hrun t ht, houter, fun i hi => ?_⟩
      by_cases hij : i = j
      · subst hij
        obtain ⟨c1, hc1, hnil⟩ := mem_waiting.mp hi
        cases hc.symm.trans hc1
        rw [(h.calls i c hc).no_sources hnil] at hsources
        obtain ⟨c2, hc2, hlater⟩ := run_calls ht hc'
        obtain ⟨more, hmore⟩ := hlater.sources
        exact ⟨c2, hc2, by simp [← hmore, hsources]⟩
      · exact hreached i ((hkept i hij).mpr hi)
    · have hcallback : callback called { s with client } = { s with client } := by
        rcases hcalled with rfl | ⟨rfl, -⟩
        · cases hr : r.listener with
          | other id => rfl
          | onReady call =>
            obtain rfl := hown r List.mem_cons_self .ready call hr
            exact absurd ⟨call, by rw [hr]; rfl⟩ hlistener
          | onEnd call =>
            obtain rfl := hown r List.mem_cons_self .ended call hr
            exact absurd ⟨call, by rw [hr]; rfl⟩ hlistener
        · rfl
      rw [hcallback] at hinv hrun
      obtain ⟨t, ht, houter, hreached⟩ := ih hinv hnext hown' fun i hi => by
        obtain ⟨r1, hr1, hl1⟩ := hall i hi
        rcases List.mem_cons.mp hr1 with rfl | hr1
        · rcases hcalled with rfl | ⟨-, hfired⟩
          · exact absurd ⟨i, congrArg some hl1⟩ hlistener
          · exact absurd hi (h.fired e i r1 hfired hl1).2
        · exact ⟨r1, hr1, hl1⟩
      exact ⟨t, hrun t ht, houter, hreached⟩

/-- An emission reaches every call that waits, first of all sources. -/
theorem emission_reaches (h : Inv s) (e : ClientEvent) :
    ∃ t, run (step connectTimeoutMs) s
        (.emit e :: List.replicate ((s.client.listeners e).length + 1) .dispatch) = some t ∧
      t.client.emissions = s.client.emissions ∧
      ∀ i ∈ s.waiting, ∃ c, t.calls[i]? = some c ∧ c.sources.head? = some e.source := by
  have hemit : step connectTimeoutMs s (.emit e) =
      some { s with client := s.client.emit e } := rfl
  have hown : ∀ r ∈ s.client.listeners e, ∀ e' i, r.listener = listener e' i → e' = e :=
    fun r hr e' i hl => (h.listening.listens.mp ⟨r, hr, hl⟩).1.symm
  have hall : ∀ i ∈ s.waiting, ∃ r ∈ s.client.listeners e, r.listener = listener e i :=
    fun i hi => h.listening.listens.mpr ⟨rfl, hi⟩
  obtain ⟨t, ht, houter, hreached⟩ :=
    @emission_carried _ _ connectTimeoutMs _ _ _ _ (h.step hemit) rfl hown hall
  exact ⟨t, ht, houter, hreached⟩

/-! ## One call -/

/-- The client was ready, or `ready` was the first to reach the wait. -/
def Call.Admitted (c : Call ε α) : Prop := c.opening = .ready ∨ c.sources.head? = some .ready

theorem Call.Ok.admitted_iff {n : Nat} (h : c.Ok n) {result : Except String Unit}
    (hresult : c.settlements = [result]) : c.Admitted ↔ result = .ok () := by
  have hverdict := h.settlements
  rw [hresult] at hverdict
  unfold Call.Admitted
  cases hopening : c.opening with
  | ready =>
    rw [hopening] at hverdict
    cases hverdict
    simp
  | ended =>
    rw [hopening] at hverdict
    cases hverdict
    simp [h.sources (by simp [hopening])]
  | other =>
    rw [hopening] at hverdict
    cases hfirst : c.sources.head? with
    | none => simp [hfirst, verdict] at hverdict
    | some first =>
      rw [hfirst] at hverdict
      cases first <;> cases hverdict <;> simp [Source.result]

theorem Call.Ok.invocations_le {n : Nat} (h : c.Ok n) : c.invocations ≤ 1 := by
  cases h.stage <;> omega

theorem Call.Ok.admitted {n : Nat} (h : c.Ok n) (hinvoked : c.invocations ≠ 0) : c.Admitted := by
  cases h.stage with
  | waiting _ hnone => exact absurd hnone hinvoked
  | queued _ hnone => exact absurd hnone hinvoked
  | invoked hresult => exact (h.admitted_iff hresult).mpr rfl
  | rejected _ hnone => exact absurd hnone hinvoked

theorem Call.Ok.refused {n : Nat} (h : c.Ok n) (hsettled : c.settlements ≠ [])
    (hrefused : ¬c.Admitted) : c.invocations = 0 ∧
      (0 < n ∨ ∃ message, c.outcome = some (.error (.connection message))) := by
  cases h.stage with
  | waiting hnil => exact absurd hnil hsettled
  | queued _ hnone => exact ⟨hnone, .inl Nat.one_pos⟩
  | invoked hresult => exact absurd ((h.admitted_iff hresult).mpr rfl) hrefused
  | rejected _ hnone houtcome => exact ⟨hnone, .inr ⟨_, houtcome⟩⟩

/-- What the gate does for a call, at any time. -/
structure CallGated (s : State ε α) (i : Nat) (c : Call ε α) : Prop where
  /-- `resolve` or `reject` is called once, by what came first -/
  settlements : c.settlements = (verdict c.opening c.sources.head?).toList
  invocations : c.invocations ≤ 1
  admitted : c.invocations ≠ 0 → c.Admitted
  refused : c.settlements ≠ [] → ¬c.Admitted → c.invocations = 0 ∧
    (i ∈ s.microtasks ∨ ∃ message, c.outcome = some (.error (.connection message)))
  cleared : c.settlements ≠ [] → (∀ timer ∈ s.timers, timer.call ≠ i) ∧
    ∀ e, ∀ r ∈ s.client.listeners e, r.listener ≠ .onReady i ∧ r.listener ≠ .onEnd i

theorem Inv.callGated (h : Inv s) (hc : s.calls[i]? = some c) : CallGated s i c := by
  have hok := h.calls i c hc
  have hgone : c.settlements ≠ [] → i ∉ s.waiting := by
    intro hsettled hmem
    obtain ⟨c', hc', hnil⟩ := mem_waiting.mp hmem
    cases hc.symm.trans hc'
    exact hsettled hnil
  refine ⟨hok.settlements, hok.invocations_le, hok.admitted, fun hsettled hrefused => ?_,
    fun hsettled => ⟨fun timer ht he => ?_, fun e r hr => ?_⟩⟩
  · obtain ⟨hnone, hend⟩ := hok.refused hsettled hrefused
    exact ⟨hnone, hend.imp_left List.count_pos_iff.mp⟩
  · exact hgone hsettled (h.armed ▸ he ▸ List.mem_map_of_mem ht)
  · have hnone : ∀ e', r.listener ≠ listener e' i := fun e' hl =>
      hgone hsettled (h.listening.listens.mp ⟨r, hr, hl⟩).2
    exact ⟨hnone .ready, hnone .ended⟩

/-! ## All calls -/

def Closure.ofCall : Closure → Bool
  | .onReady _ => true
  | .onEnd _ => true
  | .other _ => false

/-- The client's listeners, less those of other code. -/
def State.listenerCount (s : State ε α) : Nat :=
  (s.client.listeners .ready ++ s.client.listeners .ended).countP fun r => r.listener.ofCall

theorem length_filterMap_cons {β γ : Type*} (f : β → Option γ) (x : β) (xs : List β) :
    ((x :: xs).filterMap f).length = (f x).toList.length + (xs.filterMap f).length := by
  cases hx : f x with
  | none => simp [List.filterMap_cons_none hx]
  | some y => simp [List.filterMap_cons_some hx, Nat.add_comm]

theorem countP_ofCall (rs : List (Registration Closure)) :
    rs.countP (fun r => r.listener.ofCall) =
      (rs.filterMap fun r => callOf .ready r.listener).length +
        (rs.filterMap fun r => callOf .ended r.listener).length := by
  induction rs with
  | nil => rfl
  | cons r rs ih =>
    have hone : (if r.listener.ofCall = true then 1 else 0) =
        (callOf .ready r.listener).toList.length + (callOf .ended r.listener).toList.length := by
      cases r.listener <;> rfl
    rw [List.countP_cons, ih, hone, length_filterMap_cons, length_filterMap_cons]
    omega

theorem Inv.listenerCount (h : Inv s) :
    s.listenerCount = 2 * s.calls.countP Call.isWaiting := by
  have hlength := fun e e' => congrArg List.length (h.listening e e')
  simp only [Emitter.heard] at hlength
  rw [State.listenerCount, List.countP_append, countP_ofCall, countP_ofCall, hlength, hlength,
    hlength, hlength, ← length_waiting]
  simp [State.waiting]
  omega

theorem Inv.timerCount (h : Inv s) : s.timers.length = s.calls.countP Call.isWaiting := by
  rw [← length_waiting, ← List.length_map, h.armed, State.waiting]

/-! ## Every call comes to its end -/

structure Call.Over (c : Call ε α) : Prop where
  settled : c.settlements.length = 1
  admitted : c.Admitted → c.invocations = 1
  refused : ¬c.Admitted → c.invocations = 0 ∧
    ∃ message, c.outcome = some (.error (.connection message))

theorem Call.Ok.isOver (h : c.Ok 0) (hsettled : c.settlements ≠ []) : c.Over := by
  refine ⟨?_, fun hadmitted => ?_, fun hrefused => ?_⟩
  · have hlength := Option.length_toList_le (o := verdict c.opening c.sources.head?)
    have hpos := List.length_pos_iff.mpr hsettled
    rw [← h.settlements] at hlength
    omega
  · cases h.stage with
    | waiting hnil => exact absurd hnil hsettled
    | invoked _ hone => exact hone
    | rejected hresult => exact nomatch (h.admitted_iff hresult).mp hadmitted
  · obtain ⟨hnone, hcount | hend⟩ := h.refused hsettled hrefused
    · exact absurd hcount (Nat.lt_irrefl 0)
    · exact ⟨hnone, hend⟩

/-- A timer that stays armed fires, and queued continuations have their turns. -/
structure Fair
    (x : Execution (step connectTimeoutMs : State ε α → Event ε α → Option (State ε α))) :
    Prop where
  timers : ∀ t i, (∀ u ≥ t, i ∈ (x.state u).timers.map Timer.call) →
    ∃ u ≥ t, x.event u = some (.timeout i)
  microtasks : ∀ t, (∀ u ≥ t, (x.state u).microtasks ≠ []) →
    ∃ u ≥ t, x.event u = some .microtask

section
variable {x : Execution (step connectTimeoutMs : State ε α → Event ε α → Option (State ε α))}
  {n u : Nat}

theorem call_stays (hnu : n ≤ u) (hc : (x.state n).calls[i]? = some c) :
    ∃ c', (x.state u).calls[i]? = some c' ∧ c.Later c' := by
  refine Execution.stays (P := fun t : State ε α => ∃ c', t.calls[i]? = some c' ∧ c.Later c') ?_ hnu
    ⟨c, hc, .refl c⟩
  rintro s1 event s2 ⟨c1, hc1, h1⟩ hstep
  obtain ⟨c2, hc2, h2⟩ := step_calls hstep hc1
  exact ⟨c2, hc2, h1.trans h2⟩

/-- The timer of a call that waits ends the wait, if nothing else does. -/
theorem wait_settles (hx : Fair x) (hinv : ∀ n, Inv (x.state n))
    (hc : (x.state n).calls[i]? = some c) :
    ∃ u ≥ n, ∃ c', (x.state u).calls[i]? = some c' ∧ c'.settlements ≠ [] := by
  by_contra hnever
  have hwaits : ∀ u ≥ n, i ∈ (x.state u).waiting := by
    intro u hnu
    obtain ⟨c', hc', -⟩ := call_stays hnu hc
    refine mem_waiting.mpr ⟨c', hc', ?_⟩
    by_contra hsettled
    exact hnever ⟨u, hnu, c', hc', hsettled⟩
  obtain ⟨u, hnu, hu⟩ := hx.timers n i fun u hnu => (hinv u).armed ▸ hwaits u hnu
  obtain ⟨c', hc', hnil⟩ := mem_waiting.mp (hwaits u hnu)
  have hok := (hinv u).calls i c' hc'
  obtain ⟨c2, hc2, hnil2⟩ := mem_waiting.mp (hwaits (u + 1) (by omega))
  have hsources := ((hinv (u + 1)).calls i c2 hc2).no_sources hnil2
  have hstep := Execution.occurred hu
  generalize x.state (u + 1) = next at hstep hc2
  cases step_cases hstep with
  | timeout _ =>
    obtain ⟨-, -, c3, hc3, hreached⟩ := @notify_cases _ _ { x.state u with
      timers := (x.state u).timers.filter fun timer => timer.call ≠ i } i c' _ hc' hok
      (hok.opening hnil) .timeout
    cases hc2.symm.trans hc3
    simp [hreached] at hsources

theorem microtasks_kept (s : State ε α) (event : Event ε α) (t : State ε α)
    (hother : ¬event = .microtask) (h : step connectTimeoutMs s event = some t) :
    s.microtasks <+: t.microtasks := by
  rcases step_later h with hlater | ⟨call, rest, hevent, -, -⟩
  · exact hlater.microtasks
  · exact absurd hevent hother

theorem microtask_taken {s t : State ε α} (h : step connectTimeoutMs s .microtask = some t) :
    ∃ call rest, s.microtasks = call :: rest ∧
      t = resume call { s with microtasks := rest } := by
  cases step_cases h with
  | microtask hqueue => exact ⟨_, _, hqueue, rfl⟩

/-- Behind its wait a call has its turn in the queue. -/
theorem call_ends (hx : Fair x) (hinv : ∀ n, Inv (x.state n))
    (hc : (x.state n).calls[i]? = some c) (hsettled : c.settlements ≠ []) :
    ∃ u ≥ n, ∃ c', (x.state u).calls[i]? = some c' ∧ c'.Over := by
  by_cases hqueued : i ∈ (x.state n).microtasks
  · have htake : ∀ (s : State ε α) event t, event = .microtask →
        step connectTimeoutMs s event = some t → t.microtasks = s.microtasks.tail := by
      rintro s event t rfl hstep
      obtain ⟨call, rest, hqueue, rfl⟩ := microtask_taken hstep
      simp [resume, hqueue]
    have hfair : ∀ n, (∀ u ≥ n, (x.state u).microtasks ≠ []) →
        ∃ u ≥ n, ∃ event, x.event u = some event ∧ event = .microtask := by
      intro n hnonempty
      obtain ⟨u, hnu, hu⟩ := hx.microtasks n hnonempty
      exact ⟨u, hnu, .microtask, hu, rfl⟩
    obtain ⟨u, hnu, hhead, event, hevent, rfl⟩ :=
      Execution.turn microtasks_kept htake hfair hqueued
    obtain ⟨c', hc', hlater⟩ := call_stays hnu hc
    obtain ⟨call, rest, hqueue, hnext⟩ := microtask_taken (Execution.occurred hevent)
    obtain rfl : call = i := by simpa [hqueue] using hhead
    have hok := (hinv u).calls call c' hc'
    rw [hqueue, List.count_cons_self] at hok
    have hlast : rest.count call = 0 := by
      generalize hcount : rest.count call + 1 = count at hok
      cases hok.stage <;> omega
    rw [hlast] at hok
    refine ⟨u + 1, by omega, c'.proceed, ?_, hok.proceed.isOver ?_⟩
    · rw [hnext]
      simp [resume, hc']
    · rw [proceed_settlements]
      exact fun hnil => hsettled (List.prefix_nil.mp (hnil ▸ hlater.settlements))
  · have hok := (hinv n).calls i c hc
    rw [List.count_eq_zero.mpr hqueued] at hok
    exact ⟨n, Nat.le_refl n, c, hc, hok.isOver hsettled⟩

end

/-! ## The gate -/

/-- What holds of the calls of one client, at any time. -/
structure Gated (connectTimeoutMs : Nat) (s : State ε α) : Prop where
  calls : ∀ (i : Nat) c, s.calls[i]? = some c → CallGated s i c
  timers : s.timers.length = s.calls.countP Call.isWaiting
  listeners : s.listenerCount = 2 * s.calls.countP Call.isWaiting
  /-- an event reaches every call that waits, once its listeners are called -/
  reached : ∀ e : ClientEvent, ∃ t, run (step connectTimeoutMs) s
      (.emit e :: List.replicate ((s.client.listeners e).length + 1) .dispatch) = some t ∧
    ∀ (i : Nat) c, s.calls[i]? = some c → c.isWaiting = true →
      ∃ c', t.calls[i]? = some c' ∧ c'.sources.head? = some e.source

/-- **The gate settles once and cleans up**, for any number of calls and every
order of the events of their client, and every call comes to its end. -/
theorem gate_settles_once (ε α : Type) (connectTimeoutMs : Nat) (status : Status) :
    (∀ s : State ε α, Reachable (step connectTimeoutMs) (.initial status) s →
      Gated connectTimeoutMs s) ∧
    ∀ x : Execution (step connectTimeoutMs : State ε α → Event ε α → Option (State ε α)),
      Reachable (step connectTimeoutMs) (.initial status) (x.state 0) → Fair x →
      ∀ (n i : Nat) c, (x.state n).calls[i]? = some c →
        ∃ u ≥ n, ∃ c', (x.state u).calls[i]? = some c' ∧ c.Later c' ∧ c'.Over := by
  refine ⟨fun s hs => ?_, fun x hstart hx n i c hc => ?_⟩
  · have hinv := inv_of_reachable hs
    refine ⟨fun i c hc => hinv.callGated hc, hinv.timerCount, hinv.listenerCount, fun e => ?_⟩
    obtain ⟨t, ht, -, hreached⟩ := @emission_reaches _ _ connectTimeoutMs _ hinv e
    exact ⟨t, ht, fun i c hc hwaiting =>
      hreached i (mem_waiting.mpr ⟨c, hc, List.isEmpty_iff.mp hwaiting⟩)⟩
  · have hinv : ∀ n, Inv (x.state n) := fun n => inv_of_reachable
      (Execution.stays (fun _ _ _ h hstep => h.next hstep) (Nat.zero_le n) hstart)
    obtain ⟨u, hnu, c1, hc1, hsettled⟩ := wait_settles hx hinv hc
    obtain ⟨v, huv, c2, hc2, hover⟩ := call_ends hx hinv hc1 hsettled
    obtain ⟨c3, hc3, hlater⟩ := call_stays (hnu.trans huv) hc
    cases hc2.symm.trans hc3
    exact ⟨v, hnu.trans huv, c2, hc2, hlater, hover⟩

/-! ## A sample run -/

/-- Of two calls one times out, and then the client is ready. -/
def sampleEvents : List (Event Unit Nat) :=
  [.runCommand, .runCommand, .timeout 1, .setStatus .ready, .emit .ready, .dispatch, .dispatch,
    .microtask, .microtask]

def sampleExecution :
    Execution (step 100 : State Unit Nat → Event Unit Nat → Option (State Unit Nat)) :=
  .ofRun (.initial .other) sampleEvents rfl

theorem sampleExecution_over (n : Nat) : (sampleExecution.state (n + 9)).timers = [] ∧
    (sampleExecution.state (n + 9)).microtasks = [] := ⟨rfl, rfl⟩

theorem fair_sampleExecution : Fair sampleExecution where
  timers n i harmed := by
    have hmem := harmed (n + 9) (by omega)
    rw [(sampleExecution_over n).1] at hmem
    cases hmem
  microtasks n hnonempty := absurd (sampleExecution_over n).2 (hnonempty (n + 9) (by omega))

theorem gate_settles_once_two : Gated 100 (sampleExecution.state 2) ∧
    (sampleExecution.state 2).listenerCount = 4 ∧
    ∃ u c c', (sampleExecution.state u).calls[0]? = some c ∧ c.Over ∧ c.invocations = 1 ∧
      (sampleExecution.state u).calls[1]? = some c' ∧ c'.Over ∧ c'.invocations = 0 := by
  obtain ⟨hsafe, hlive⟩ := gate_settles_once Unit Nat 100 .other
  have hstart : Reachable (step 100) (.initial .other) (sampleExecution.state 0) := .refl _
  have hreach : Reachable (step 100) (.initial .other) (sampleExecution.state 2) :=
    Execution.stays (fun _ _ _ h hstep => h.next hstep) (Nat.zero_le 2) hstart
  obtain ⟨u, hu, c, hc, -, hover⟩ := hlive sampleExecution hstart fair_sampleExecution 9 0 _ rfl
  obtain ⟨v, hv, c', hc', -, hover'⟩ := hlive sampleExecution hstart fair_sampleExecution 9 1 _ rfl
  obtain ⟨d, rfl⟩ := Nat.exists_eq_add_of_le' hu
  obtain ⟨d', rfl⟩ := Nat.exists_eq_add_of_le' hv
  cases hc
  cases hc'
  exact ⟨hsafe _ hreach, rfl, 9, _, _, rfl, hover, rfl, rfl, hover', rfl⟩

end NewsApi.Redis.CommandRunner
