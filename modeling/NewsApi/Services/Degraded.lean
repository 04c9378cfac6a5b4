import NewsApi.Services.Outcomes
import NewsApi.Services.Subscribers

/-! # The cache is not a dependency

Whatever the cache and the leases answer, a call that nobody cancels gets what
the provider said: its articles, or exactly its error. And it gets them: once
the provider has returned articles, in every run in which commands are answered
and callbacks run, the call resolves. -/
namespace NewsApi.Services
open NewsApi.Async NewsApi.Text NewsApi.Types NewsApi.Config NewsApi.Errors
open NewsApi.Runtime NewsApi.Collections NewsApi.Providers NewsApi.Async.SingleFlight

/-- The outcome of a call that was not cancelled, if it has one. -/
structure Served (s : Process) (c : Call) : Prop where
  articles : ∀ result, c.outcome = some (.ok result) → isArticleList result.articles.value = true
  rejected : ∀ err, c.outcome = some (.error err) → ∃ w e, c.wait = some w ∧
    s.entries[w.entry]? = some e ∧ e.lo.provider = some (.error err)
  resolved : ∀ w e articles, c.wait = some w → s.entries[w.entry]? = some e →
    e.lo.provider = some (.ok articles) → ∀ r, c.outcome = some r →
      ∃ result, r = .ok result ∧ result.articles = articles

variable {settings : Settings} {platform : Platform} {leases honest : Bool}
  {s s' : Process} {c : Call} {e : InFlightSearch} {i n : Nat} {articles : ArticleList}

/-- What the in-flight work of a provider call that returned resolves with. -/
theorem JobOutcome.resolved {key : JsString} {r : Except JsError ArticleSearchResult} {v : View}
    (h : JobOutcome honest key r v) (hp : v.lo.provider = some (.ok articles))
    (hclient : v.lo.client = false) : r = .ok ⟨articles, .miss⟩ := by
  rcases r with err | ⟨own, _ | _ | _ | _⟩
  · rcases h with ha | ⟨ha, -⟩
    · exact nomatch hclient.symm.trans ha
    · exact nomatch hp.symm.trans ha
  · exact h.elim
  · cases hp.symm.trans h
    rfl
  · exact nomatch hp.symm.trans h.1
  · obtain ⟨err, ha⟩ := h.1
    exact nomatch hp.symm.trans ha

theorem Known.served (h : Known settings honest (fun _ => True) s) (hc : c ∈ s.calls)
    (hclient : c.lo.client = false)
    (hshared : ∀ w e, c.wait = some w → s.entries[w.entry]? = some e → e.lo.client = false) :
    Served s c where
  articles result _ := result.articles.isList
  rejected err ho := by
    rcases ((h.answers c hc).outcome _ ho).error_cases with ⟨hgone, -⟩ | ⟨w, e, hw, hn, hp⟩
    · exact nomatch hclient.symm.trans hgone
    · rcases (h.mem hn).outcome hp with ha | ⟨ha, -⟩
      · exact nomatch (hshared w e hw hn).symm.trans ha
      · exact ⟨w, e, hw, hn, ha⟩
  resolved w e articles hw hn hprovider r ho := by
    have hjob : ∀ {own}, e.promise = .pure own → own = .ok ⟨articles, .miss⟩ := fun hp =>
      ((h.mem hn).outcome hp).resolved hprovider (hshared w e hw hn)
    cases r with
    | error err =>
      rcases ((h.answers c hc).outcome _ ho).error_cases with ⟨hgone, -⟩ | ⟨w', e', hw', hn', hp⟩
      · exact nomatch hclient.symm.trans hgone
      · cases hw.symm.trans hw'
        cases hn.symm.trans hn'
        exact nomatch hjob hp
    | ok result =>
      rcases ((h.answers c hc).outcome _ ho).ok_cases with
        ⟨hnone, -⟩ | ⟨w', e', own, hw', hn', hp, rfl⟩
      · exact nomatch hw.symm.trans hnone
      · cases hw.symm.trans hw'
        cases hn.symm.trans hn'
        refine ⟨_, rfl, ?_⟩
        rw [callResult_articles, Except.ok.inj (hjob hp)]

/-! ## Calls are answered -/

/-- Work is answered once its provider call has settled, an end is noticed, and
the callbacks of a settled search run. -/
structure Fair (x : Execution (step settings platform leases honest)) : Prop where
  answered : ∀ t (n : Nat) e, (x.state t).entries[n]? = some e → e.lo.provider ≠ none →
    (∀ r, e.promise ≠ .pure r) → ∃ u ≥ t, ∃ answer, x.event u = some (.jobReply n answer)
  marked : ∀ t (n : Nat) e r, (x.state t).entries[n]? = some e → e.promise = .pure r →
    e.settled = false → ∃ u ≥ t, x.event u = some (.markSettled n)
  told : ∀ t (i : Nat) c w e, (x.state t).calls[i]? = some c → c.wait = some w →
    (x.state t).entries[w.entry]? = some e → e.settled = true → w.delivered = false →
    ∃ u ≥ t, x.event u = some (.deliver i)

/-- The call has joined the search `n`, whose provider call returned the articles. -/
structure Awaiting (settings : Settings) (honest : Bool) (i n : Nat) (articles : ArticleList)
    (s : Process) : Prop where
  ok : s.Ok
  known : Known settings honest (fun _ => True) s
  call : ∃ c w, s.calls[i]? = some c ∧ c.wait = some w ∧ w.entry = n
  search : ∃ e, s.entries[n]? = some e ∧ e.lo.provider = some (.ok articles)

theorem answers_any (ev : Event) : ev.Answers fun _ => True := by
  cases ev <;> first | trivial | exact fun _ _ _ => trivial

theorem Awaiting.next {ev : Event} (h : Awaiting settings honest i n articles s)
    (hs : step settings platform leases honest s ev = some s') :
    Awaiting settings honest i n articles s' := by
  have ha := step_advances h.ok hs
  have hf := step_follows h.ok h.known (answers_any ev) hs
  refine ⟨ha.ok h.ok, hf.known, ?_, ?_⟩
  · obtain ⟨c, w, hi, hw, rfl⟩ := h.call
    obtain ⟨c', hi', hnext⟩ := ha.call hi
    have hok' := ha.calls c' (List.mem_of_getElem? hi')
    have hok := h.ok.calls c (List.mem_of_getElem? hi)
    obtain ⟨w', hw', hentry⟩ := (next_call hok hok' hnext).wait w hw
    exact ⟨c', w', hi', hw', hentry⟩
  · obtain ⟨e, hn, hp⟩ := h.search
    obtain ⟨e', hn', hg⟩ := hf.grow n e hn
    exact ⟨e', hn', hg.provider _ hp⟩

section
variable {x : Execution (step settings platform leases honest)} {t u : Nat}

theorem Awaiting.later (h : Awaiting settings honest i n articles (x.state t)) (htu : t ≤ u) :
    Awaiting settings honest i n articles (x.state u) :=
  Execution.stays (fun _ _ _ => Awaiting.next) htu h

/-- The work ends: by induction on what is left of it, which every answer shortens. -/
theorem work_ends (hx : Fair x) (ht : Awaiting settings honest i n articles (x.state t)) :
    ∃ u ≥ t, ∃ e r, (x.state u).entries[n]? = some e ∧ e.promise = .pure r := by
  obtain ⟨e, hn, hprovider⟩ := ht.search
  generalize hp : e.promise = p
  have hacc := Host.acc_resumes (h := jobHost settings honest) p
  induction hacc generalizing t e with
  | intro p _ ih =>
    cases p with
    | pure r => exact ⟨t, Nat.le_refl t, e, r, hn, hp⟩
    | iter body b k =>
      -- the loops are left before the provider call settles
      have hparked := (ht.known.mem hn).parked
      rw [hp] at hparked
      exact nomatch hprovider.symm.trans hparked.1
    | call c k =>
      obtain ⟨u, htu, answer, hu⟩ := hx.answered t n e hn (by simp [hprovider])
        fun r hr => nomatch hp.symm.trans hr
      have hstep : ∀ s ev s', (Awaiting settings honest i n articles s ∧
            ∃ e, s.entries[n]? = some e ∧ e.promise = .call c k) →
          ¬(∃ answer, ev = .jobReply n answer) →
          step settings platform leases honest s ev = some s' →
          Awaiting settings honest i n articles s' ∧
            ∃ e, s'.entries[n]? = some e ∧ e.promise = .call c k := by
        rintro s ev s' ⟨h, e, hn, hp⟩ hother hs
        obtain ⟨e', hn', hg⟩ := (step_follows h.ok h.known (answers_any ev) hs).grow n e hn
        refine ⟨h.next hs, e', hn', (hg.promise fun hreplied => hother ?_).trans hp⟩
        cases ev <;> cases hreplied
        exact ⟨_, rfl⟩
      obtain ⟨v, htv, ⟨hawait, e1, hn1, hp1⟩, _, hv, answer1, rfl⟩ :=
        Execution.holds_until hstep htu ⟨ht, e, hn, hp⟩ hu ⟨answer, rfl⟩
      have hnow := Execution.occurred hv
      obtain ⟨e2, promise, view, hn2, hr, hafter⟩ := step_jobReply hnow
      cases hn1.symm.trans hn2
      have hnext : Awaiting settings honest i n articles (x.state (v + 1)) := hawait.next hnow
      obtain ⟨e', hn', hprovider'⟩ := hnext.search
      have hp' : e'.promise = promise := by
        rw [hafter] at hn'
        cases (getElem?_set_here hn2 _).symm.trans hn'
        rfl
      rw [hp1] at hr
      obtain ⟨u, hu, hend⟩ := ih promise ⟨answer1, c, k, _, _, rfl, hr⟩ hnext e' hn' hprovider' hp'
      exact ⟨u, by omega, hend⟩

theorem work_settles (hx : Fair x) (ht : Awaiting settings honest i n articles (x.state t)) :
    ∃ u ≥ t, ∃ e, (x.state u).entries[n]? = some e ∧ e.settled = true := by
  obtain ⟨u, htu, e, r, hn, hp⟩ := work_ends hx ht
  cases hs : e.settled with
  | true => exact ⟨u, htu, e, hn, hs⟩
  | false =>
    obtain ⟨v, huv, hv⟩ := hx.marked u n e r hn hp hs
    obtain ⟨e1, r1, hn1, -, hs1, hafter⟩ := step_markSettled (Execution.occurred hv)
    rw [markInFlightSettled_eq (ht.later (by omega : t ≤ v)).ok hn1 hs1] at hafter
    refine ⟨v + 1, by omega, { e1 with settled := true }, ?_, rfl⟩
    rw [hafter]
    exact getElem?_set_here hn1 _

theorem call_answered (hx : Fair x) (ht : Awaiting settings honest i n articles (x.state t)) :
    ∃ u ≥ t, ∃ c r, (x.state u).calls[i]? = some c ∧ c.outcome = some r := by
  obtain ⟨u, htu, e, hn, hs⟩ := work_settles hx ht
  have hu := ht.later htu
  obtain ⟨c, w, hi, hw, rfl⟩ := hu.call
  cases ho : c.outcome with
  | some r => exact ⟨u, htu, c, r, hi, ho⟩
  | none =>
    have hd : w.delivered = false := by
      have := (hu.ok.calls c (List.mem_of_getElem? hi)).ended w hw
      rw [ho, Option.isSome_none, eq_comm, Bool.or_eq_false_iff] at this
      exact this.1
    obtain ⟨v, huv, hv⟩ := hx.told u i c w e hi hw hn hs hd
    obtain ⟨c1, w1, e1, r1, hi1, -, -, -, -, -, hafter⟩ := step_deliver (Execution.occurred hv)
    have houtcome : (deliver c1 w1 e1 r1).1.outcome.isSome = true := by
      show (c1.outcome.or _).isSome = true
      cases c1.outcome <;> rfl
    obtain ⟨r, hr⟩ := Option.isSome_iff_exists.mp houtcome
    refine ⟨v + 1, by omega, _, r, ?_, hr⟩
    rw [hafter]
    exact getElem?_set_here hi1 _

end

/-- A call that is not cancelled is told what the provider said, whatever the
cache and the leases do; and once the provider has returned articles for the
search it waits on, it resolves with them. -/
theorem cache_not_a_dependency (settings : Settings) (platform : Platform)
    (leases honest : Bool) :
    (∀ s, Reachable (step settings platform leases honest) .initial s → ∀ c ∈ s.calls,
      c.lo.client = false →
      (∀ w e, c.wait = some w → s.entries[w.entry]? = some e → e.lo.client = false) →
      Served s c) ∧
    (∀ x : Execution (step settings platform leases honest),
      Reachable (step settings platform leases honest) .initial (x.state 0) → Fair x →
      ∀ t (i : Nat) c w e articles, (x.state t).calls[i]? = some c → c.wait = some w →
        (x.state t).entries[w.entry]? = some e → e.lo.provider = some (.ok articles) →
        (∀ u c, (x.state u).calls[i]? = some c → c.lo.client = false) →
        (∀ u e, (x.state u).entries[w.entry]? = some e → e.lo.client = false) →
        ∃ u ≥ t, ∃ c result, (x.state u).calls[i]? = some c ∧
          c.outcome = some (.ok result) ∧ result.articles = articles) := by
  refine ⟨fun s hs c hc hclient hshared => (known_of_reachable hs).2.served hc hclient hshared, ?_⟩
  intro x hinit hx t i c w e articles hi hw hn hprovider hclients hshared
  have hreach : Reachable (step settings platform leases honest) .initial (x.state t) :=
    Execution.stays (fun _ _ _ h hs => h.next hs) (Nat.zero_le t) hinit
  obtain ⟨hok, hknown⟩ := known_of_reachable hreach
  have ht : Awaiting settings honest i w.entry articles (x.state t) :=
    ⟨hok, hknown, ⟨c, w, hi, hw, rfl⟩, ⟨e, hn, hprovider⟩⟩
  obtain ⟨u, htu, c', r, hi', ho⟩ := call_answered hx ht
  have hu := ht.later htu
  obtain ⟨c'', w', hi'', hw', hentry⟩ := hu.call
  cases hi'.symm.trans hi''
  obtain ⟨e', hn', hprovider'⟩ := hu.search
  rw [← hentry] at hn'
  have hserved := hu.known.served (List.mem_of_getElem? hi') (hclients u c' hi')
    fun w1 e1 hw1 hn1 => by
      cases hw'.symm.trans hw1
      exact hshared u e1 (hentry ▸ hn1)
  obtain ⟨result, rfl, harticles⟩ := hserved.resolved w' e' articles hw' hn' hprovider' r ho
  exact ⟨u, htu, c', result, hi', ho, harticles⟩

/-! ## A sample run -/

/-- Every command of the cache and of the leases fails. -/
def brokenStore : (c : Command) → Option (Reply c)
  | .storeGet _ => some (.error (.cacheCorruption "corrupt"))
  | .storeSet _ _ _ => some (.error .value)
  | .storeDelete _ => some (.error .value)
  | .tryAcquireLease _ _ _ => some (.error .value)
  | .releaseLease _ _ => some (.error .value)
  | c => emptyStore c

/-- A call whose search has to end its second write. -/
def writing : List Event :=
  [sampleCall none, .callReply 0 brokenStore, .callReply 0 brokenStore, .callReply 0 brokenStore] ++
    List.replicate 9 (.jobReply 0 brokenStore)

def beforeEnd : Process :=
  (run (step .default .plain true true) .initial writing).getD .initial

def lastEvents : List Event := [.jobReply 0 brokenStore, .markSettled 0, .deliver 0]

def sampleExecution : Execution (step .default .plain true true) :=
  .ofRun beforeEnd lastEvents rfl

/-- The run has one search and one call. -/
theorem sampleExecution_single (t : Nat) : (sampleExecution.state t).entries.length = 1 ∧
    (sampleExecution.state t).calls.length = 1 := by
  match t with
  | 0 | 1 | 2 | t + 3 => exact ⟨rfl, rfl⟩

theorem eq_zero_of_single {α : Type 1} {xs : List α} {n : Nat} {x : α} (h : xs.length = 1)
    (hn : xs[n]? = some x) : n = 0 := by
  have hlt := (List.getElem?_eq_some_iff.mp hn).1
  omega

theorem fair_sampleExecution : Fair sampleExecution where
  answered t n e hn _ hrun := by
    obtain rfl := eq_zero_of_single (sampleExecution_single t).1 hn
    match t with
    | 0 => exact ⟨0, Nat.le_refl 0, brokenStore, rfl⟩
    | 1 | 2 | t + 3 => cases hn; exact absurd rfl (hrun _)
  marked t n e r hn hp hs := by
    obtain rfl := eq_zero_of_single (sampleExecution_single t).1 hn
    match t with
    | 0 => cases hn; cases hp
    | 1 => exact ⟨1, Nat.le_refl 1, rfl⟩
    | 2 | t + 3 => cases hn; cases hs
  told t i c w e hi hw hn hs hd := by
    obtain rfl := eq_zero_of_single (sampleExecution_single t).2 hi
    match t with
    | 0 | 1 => cases hi; cases hw; cases hn; cases hs
    | 2 => exact ⟨2, Nat.le_refl 2, rfl⟩
    | t + 3 => cases hi; cases hw; cases hd

theorem sampleExecution_calls (u : Nat) (c : Call)
    (h : (sampleExecution.state u).calls[0]? = some c) : c.lo.client = false := by
  match u with
  | 0 | 1 | 2 | u + 3 => cases h; rfl

theorem sampleExecution_entries (u : Nat) (e : InFlightSearch)
    (h : (sampleExecution.state u).entries[0]? = some e) : e.lo.client = false := by
  match u with
  | 0 | 1 | 2 | u + 3 => cases h; rfl

/-- With a broken cache the call resolves with what the provider returned. -/
theorem cache_not_a_dependency_brokenStore :
    ∃ u c result, (sampleExecution.state u).calls[0]? = some c ∧ c.outcome = some (.ok result) ∧
      result.articles = ⟨.arr [], rfl⟩ ∧ Served (sampleExecution.state u) c := by
  have hstart : Reachable (step .default .plain true true) .initial (sampleExecution.state 0) :=
    ⟨writing, rfl⟩
  obtain ⟨hsafe, hlive⟩ := cache_not_a_dependency .default .plain true true
  obtain ⟨u, -, c, result, hi, ho, harticles⟩ := hlive sampleExecution hstart fair_sampleExecution
    0 0 _ _ _ _ rfl rfl rfl rfl sampleExecution_calls sampleExecution_entries
  have hreach : Reachable (step .default .plain true true) .initial (sampleExecution.state u) :=
    Execution.stays (fun _ _ _ h hs => h.next hs) (Nat.zero_le u) hstart
  refine ⟨u, c, result, hi, ho, harticles, hsafe _ hreach c (List.mem_of_getElem? hi)
    (sampleExecution_calls u c hi) fun w e hw hn => ?_⟩
  obtain ⟨w', hw', hentry⟩ : ∃ w', c.wait = some w' ∧ w'.entry = 0 := by
    match u with
    | 0 | 1 | 2 | u + 3 => cases hi; exact ⟨_, rfl, rfl⟩
  cases hw.symm.trans hw'
  exact sampleExecution_entries u e (hentry ▸ hn)

end NewsApi.Services
