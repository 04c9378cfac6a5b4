import NewsApi.Services.Degraded
import NewsApi.Services.SearchEnds
import NewsApi.Services.Tasks

/-! # Every call settles

Whatever is answered, as long as something is and time goes by. -/
namespace NewsApi.Services
open NewsApi.Async NewsApi.Text NewsApi.Types NewsApi.Config NewsApi.Errors
open NewsApi.Runtime NewsApi.Collections

variable {settings : Settings} {platform : Platform} {leases honest : Bool}
  {s s' : Process} {c c' : Call} {e e' : InFlightSearch} {i n : Nat}

variable (settings honest) in
/-- What is under way will end. -/
def Lives (s : Process) : Prop :=
  Tasks (Ending (jobHost settings honest) InTime) (Ending (jobHost settings honest) InTime)
    (fun _ => True) s

variable (settings platform leases honest) in
theorem lives_rules : TaskRules settings platform leases honest (fun _ => True)
    (Ending (jobHost settings honest) InTime) (Ending (jobHost settings honest) InTime)
    (fun _ => True) where
  gone := ⟨trivial, trivial⟩
  reads cacheKey := by
    have hread : AsyncM.Halts InTime (readCachedArticles cacheKey) 0 := halts_readArticles _ _
    exact ⟨hread, ⟨.initial, .start 0 (fun _ => 0) []⟩, rfl⟩
  looks _ _ _ _ _ _ hp hr := hp.resume (jobHost_phased settings honest) hr
  starts options v := by
    have hnew : AsyncM.Halts InTime (fetchArticlesFromUpstream settings platform leases options
      (searchCacheKey options)) 0 := halts_fetchArticlesFromUpstream
    exact Prog.Ends.advance (jobHost_phased settings honest) hnew
  works _ _ _ _ _ _ hp hr := hp.resume (jobHost_phased settings honest) hr
  aborted := trivial
  failed _ _ := trivial
  found _ _ := trivial
  told _ _ _ := trivial

theorem lives_step {ev : Event} (h : Lives settings honest s)
    (hs : step settings platform leases honest s ev = some s') : Lives settings honest s' :=
  tasks_step (lives_rules settings platform leases honest) h (by cases ev <;> trivial) hs

theorem lives_of_reachable (h : Reachable (step settings platform leases honest) .initial s) :
    Lives settings honest s :=
  h.invariant .initial fun _ _ _ => lives_step

/-! ## Time -/

theorem resume_clock {α : Type} {answer : (c : Command) → Option (Reply c)}
    {p p' : Prog Command Reply α} {v v' : View}
    (h : (jobHost settings honest).resume answer p v = some (p', v')) :
    v'.sh.clock = v.sh.clock :=
  Host.resume_frame (T := fun v v' : View => v'.sh.clock = v.sh.clock) (fun _ => rfl)
    (fun h h' => h'.trans h) (fun _ _ _ _ hn => (now_clock hn).1)
    (fun _ _ => congrArg Shared.clock issue_sh) (fun _ _ _ _ _ hr => reply_clock hr) h

variable (settings platform leases honest) in
theorem continueCall_clock (s : Process) (i : Nat) (c : Call) :
    (continueCall settings platform leases honest s i c).sh.clock = s.sh.clock := by
  unfold continueCall
  split
  · rfl
  · rfl
  · unfold joinInFlightSearch
    dsimp only
    split
    · rfl
    · exact Host.advance_frame (T := fun v v' : View => v'.sh.clock = v.sh.clock) (fun _ => rfl)
        (fun h h' => h'.trans h) (fun _ _ _ _ hn => (now_clock hn).1)
        (fun _ _ => congrArg Shared.clock issue_sh) _ _
  · rfl

theorem step_clock {ev : Event} (hs : step settings platform leases honest s ev = some s') :
    s.sh.clock ≤ s'.sh.clock := by
  cases ev with
  | call options signal randoms uuid =>
    cases hs
    obtain ⟨c, heq, -⟩ :=
      searchArticles_cases settings platform leases honest s options signal randoms uuid
    exact (congrArg (·.sh.clock) heq).ge
  | callReply i answer =>
    obtain ⟨c, lookup, v, hi, hr, rfl⟩ := step_callReply hs
    rw [continueCall_clock]
    exact (resume_clock hr).ge
  | jobReply n answer =>
    obtain ⟨e, promise, v, hn, hr, rfl⟩ := step_jobReply hs
    exact (resume_clock hr).ge
  | markSettled n =>
    obtain ⟨e, r, hn, hp, hsettled, rfl⟩ := step_markSettled hs
    unfold markInFlightSettled
    dsimp only
    split <;> exact Nat.le_refl _
  | deliver i =>
    obtain ⟨c, w, e, r, hi, hw, hn, hp, -, -, rfl⟩ := step_deliver hs
    exact Nat.le_refl _
  | disconnect i =>
    obtain ⟨c, hi, -, rfl⟩ := step_disconnect hs
    unfold disconnect
    dsimp only
    split
    · split
      · split <;> exact Nat.le_refl _
      · exact Nat.le_refl _
    · exact Nat.le_refl _
  | shutdown =>
    cases hs
    exact Nat.le_refl _
  | deadline n =>
    obtain ⟨e, lo, hn, hlo, rfl⟩ := step_deadline hs
    exact Nat.le_refl _
  | renewed n result =>
    obtain ⟨e, lo, hn, hlo, rfl⟩ := step_renewed hs
    exact Nat.le_refl _
  | elapse ms =>
    cases hs
    exact Nat.le_add_right _ _

/-! ## Tasks -/

def lookupOf (i : Nat) (s : Process) :
    Prog Command Reply (Except JsError (Option ArticleSearchResult)) :=
  (s.calls[i]?.map (·.lookup)).getD (.pure (.ok none))

def workOf (n : Nat) (s : Process) : Prog Command Reply (Except JsError ArticleSearchResult) :=
  (s.entries[n]?.map (·.promise)).getD (.pure (.error .value))

/-- What the task of this state sees. -/
def viewOf (lo : Option Local) (s : Process) : View :=
  ⟨s.sh, lo.getD (.start 0 (fun _ => 0) [])⟩

def lookupView (i : Nat) (s : Process) : View := viewOf (s.calls[i]?.map (·.lo)) s

def workView (n : Nat) (s : Process) : View := viewOf (s.entries[n]?.map (·.lo)) s

theorem lookupOf_eq (hi : s.calls[i]? = some c) :
    lookupOf i s = c.lookup ∧ lookupView i s = ⟨s.sh, c.lo⟩ := by
  unfold lookupOf lookupView viewOf
  rw [hi]
  exact ⟨rfl, rfl⟩

theorem workOf_eq (hn : s.entries[n]? = some e) :
    workOf n s = e.promise ∧ workView n s = ⟨s.sh, e.lo⟩ := by
  unfold workOf workView viewOf
  rw [hn]
  exact ⟨rfl, rfl⟩

theorem waitForInFlightSearch_lookup (c : Call) (n : Nat) (existing : Bool)
    (e : InFlightSearch) : (waitForInFlightSearch c n existing e).1.lookup = c.lookup := by
  unfold waitForInFlightSearch
  split <;> rfl

variable (settings platform leases honest) in
theorem continueCall_lookup (s : Process) (i : Nat) (c : Call) :
    ∃ c', (continueCall settings platform leases honest s i c).calls = s.calls.set i c' ∧
      c'.lookup = c.lookup := by
  unfold continueCall
  split
  · exact ⟨_, rfl, rfl⟩
  · exact ⟨_, rfl, rfl⟩
  · unfold joinInFlightSearch
    dsimp only
    split
    · exact ⟨_, rfl, waitForInFlightSearch_lookup _ _ _ _⟩
    · exact ⟨_, rfl, waitForInFlightSearch_lookup _ _ _ _⟩
  · exact ⟨_, rfl, rfl⟩

theorem callReply_goes {answer : (c : Command) → Option (Reply c)}
    (hs : step settings platform leases honest s (.callReply i answer) = some s') :
    ∃ v, (jobHost settings honest).resume answer (lookupOf i s) (lookupView i s) =
      some (lookupOf i s', v) ∧ v.sh.clock ≤ s'.sh.clock := by
  obtain ⟨c, lookup, v, hi, hr, rfl⟩ := step_callReply hs
  obtain ⟨c', hcalls, hlookup⟩ := continueCall_lookup settings platform leases honest
    { s with sh := v.sh } i { c with lo := v.lo, lookup := lookup }
  have hi' : (continueCall settings platform leases honest { s with sh := v.sh } i
      { c with lo := v.lo, lookup := lookup }).calls[i]? = some c' := by
    rw [hcalls]
    exact getElem?_set_here hi c'
  rw [(lookupOf_eq hi).1, (lookupOf_eq hi).2, (lookupOf_eq hi').1, hlookup]
  refine ⟨v, hr, ?_⟩
  rw [continueCall_clock]

theorem jobReply_goes {answer : (c : Command) → Option (Reply c)}
    (hs : step settings platform leases honest s (.jobReply n answer) = some s') :
    ∃ v, (jobHost settings honest).resume answer (workOf n s) (workView n s) =
      some (workOf n s', v) ∧ v.sh.clock ≤ s'.sh.clock := by
  obtain ⟨e, promise, v, hn, hr, rfl⟩ := step_jobReply hs
  have hn' : (Process.setEntry { s with sh := v.sh } n
      { e with lo := v.lo, promise := promise }).entries[n]? =
        some { e with lo := v.lo, promise := promise } := getElem?_set_here hn _
  rw [(workOf_eq hn).1, (workOf_eq hn).2, (workOf_eq hn').1]
  exact ⟨v, hr, Nat.le_refl _⟩

/-! ## Runs in which everything is attended to -/

/-- Every command is answered some time, callbacks run, and time goes by. -/
structure Diligent (x : Execution (step settings platform leases honest)) : Prop where
  looked : ∀ t (i : Nat) c, (x.state t).calls[i]? = some c → (∀ r, c.lookup ≠ .pure r) →
    ∃ u ≥ t, ∃ answer, x.event u = some (.callReply i answer)
  worked : ∀ t (n : Nat) e, (x.state t).entries[n]? = some e → (∀ r, e.promise ≠ .pure r) →
    ∃ u ≥ t, ∃ answer, x.event u = some (.jobReply n answer)
  marked : ∀ t (n : Nat) e r, (x.state t).entries[n]? = some e → e.promise = .pure r →
    e.settled = false → ∃ u ≥ t, x.event u = some (.markSettled n)
  told : ∀ t (i : Nat) c w e, (x.state t).calls[i]? = some c → c.wait = some w →
    (x.state t).entries[w.entry]? = some e → e.settled = true → w.delivered = false →
    ∃ u ≥ t, x.event u = some (.deliver i)
  passes : ∀ T, ∃ t, T ≤ (x.state t).sh.clock

/-- A process that has got here. -/
structure Sound (settings : Settings) (honest : Bool) (s : Process) : Prop where
  ok : s.Ok
  known : Known settings honest (fun _ => True) s
  lives : Lives settings honest s

theorem Sound.next {ev : Event} (h : Sound settings honest s)
    (hs : step settings platform leases honest s ev = some s') : Sound settings honest s' where
  ok := (step_advances h.ok hs).ok h.ok
  known := (step_follows h.ok h.known (answers_any ev) hs).known
  lives := lives_step h.lives hs

theorem sound_of_reachable (h : Reachable (step settings platform leases honest) .initial s) :
    Sound settings honest s :=
  ⟨(known_of_reachable h).1, (known_of_reachable h).2, lives_of_reachable h⟩

section
variable {x : Execution (step settings platform leases honest)} {t u : Nat}

theorem clock_mono (htu : t ≤ u) : (x.state t).sh.clock ≤ (x.state u).sh.clock :=
  Execution.stays (P := fun s => (x.state t).sh.clock ≤ s.sh.clock)
    (fun _ _ _ h hs => h.trans (step_clock hs)) htu (Nat.le_refl _)

theorem Diligent.passes_from (hx : Diligent x) (t T : Nat) :
    ∃ u ≥ t, T ≤ (x.state u).sh.clock := by
  obtain ⟨u, hu⟩ := hx.passes T
  exact ⟨max t u, Nat.le_max_left .., hu.trans (clock_mono (Nat.le_max_right ..))⟩

/-- A call stays. -/
theorem call_there (hsound : Sound settings honest (x.state t))
    (hi : (x.state t).calls[i]? = some c) (htu : t ≤ u) :
    Sound settings honest (x.state u) ∧ ∃ c, (x.state u).calls[i]? = some c := by
  refine Execution.stays (P := fun s => Sound settings honest s ∧ ∃ c, s.calls[i]? = some c)
    (fun s ev s' h hs => ⟨h.1.next hs, ?_⟩) htu ⟨hsound, c, hi⟩
  obtain ⟨c, hi⟩ := h.2
  obtain ⟨c', hi', -⟩ := (step_evolves h.1.ok h.1.known hs).calls.moved i c hi
  exact ⟨c', hi'⟩

/-- A search stays. -/
theorem search_there (hsound : Sound settings honest (x.state t))
    (hn : (x.state t).entries[n]? = some e) (htu : t ≤ u) :
    Sound settings honest (x.state u) ∧ ∃ e, (x.state u).entries[n]? = some e := by
  refine Execution.stays (P := fun s => Sound settings honest s ∧ ∃ e, s.entries[n]? = some e)
    (fun s ev s' h hs => ⟨h.1.next hs, ?_⟩) htu ⟨hsound, e, hn⟩
  obtain ⟨e, hn⟩ := h.2
  obtain ⟨e', hn', -⟩ := (step_follows h.1.ok h.1.known (answers_any ev) hs).grow n e hn
  exact ⟨e', hn'⟩

/-- The lookup of a call is a task. -/
theorem lookup_run (hx : Diligent x) (hsound : Sound settings honest (x.state t))
    (hi : (x.state t).calls[i]? = some c) :
    TaskRun (jobHost settings honest) (·.sh.clock) (fun t => lookupOf i (x.state t))
      (fun t => lookupView i (x.state t)) t := by
  refine ⟨fun u htu => ?_, fun u htu hrun => ?_, hx.passes_from t⟩
  · obtain ⟨hsound, c, hi⟩ := call_there hsound hi htu
    have hnext := x.next u
    cases hev : x.event u with
    | none =>
      rw [hev] at hnext
      rw [show x.state (u + 1) = x.state u from hnext]
      exact .inr ⟨rfl, Nat.le_refl _⟩
    | some ev =>
      have hs := Execution.occurred hev
      obtain ⟨c', hi', hmoves⟩ := (step_evolves hsound.ok hsound.known hs).calls.moved i c hi
      cases hmoves with
      | keeps hk =>
        refine .inr ⟨?_, step_clock hs⟩
        rw [(lookupOf_eq hi).1, (lookupOf_eq hi').1, hk.lookup]
      | looked answer v hanswer =>
        subst hanswer
        exact .inl ⟨answer, callReply_goes hs⟩
  · obtain ⟨-, c, hi⟩ := call_there hsound hi htu
    obtain ⟨v, huv, answer, hv⟩ := hx.looked u i c hi fun r hr => hrun r ((lookupOf_eq hi).1.trans hr)
    exact ⟨v, huv, answer, callReply_goes (Execution.occurred hv)⟩

/-- The work of a search is a task. -/
theorem work_run (hx : Diligent x) (hsound : Sound settings honest (x.state t))
    (hn : (x.state t).entries[n]? = some e) :
    TaskRun (jobHost settings honest) (·.sh.clock) (fun t => workOf n (x.state t))
      (fun t => workView n (x.state t)) t := by
  refine ⟨fun u htu => ?_, fun u htu hrun => ?_, hx.passes_from t⟩
  · obtain ⟨hsound, e, hn⟩ := search_there hsound hn htu
    have hnext := x.next u
    cases hev : x.event u with
    | none =>
      rw [hev] at hnext
      rw [show x.state (u + 1) = x.state u from hnext]
      exact .inr ⟨rfl, Nat.le_refl _⟩
    | some ev =>
      have hs := Execution.occurred hev
      obtain ⟨e', hn', hg⟩ := (step_follows hsound.ok hsound.known (answers_any ev) hs).grow n e hn
      by_cases hreplied : ev.repliesTo n
      · cases ev <;> cases hreplied
        exact .inl ⟨_, jobReply_goes hs⟩
      · refine .inr ⟨?_, step_clock hs⟩
        rw [(workOf_eq hn).1, (workOf_eq hn').1, hg.promise hreplied]
  · obtain ⟨-, e, hn⟩ := search_there hsound hn htu
    obtain ⟨v, huv, answer, hv⟩ := hx.worked u n e hn fun r hr => hrun r ((workOf_eq hn).1.trans hr)
    exact ⟨v, huv, answer, jobReply_goes (Execution.occurred hv)⟩

theorem search_settles (hx : Diligent x) (hsound : Sound settings honest (x.state t))
    (hn : (x.state t).entries[n]? = some e) :
    ∃ u ≥ t, ∃ e, (x.state u).entries[n]? = some e ∧ e.settled = true := by
  have hending : Ending (jobHost settings honest) InTime (workOf n (x.state t)) := by
    rw [(workOf_eq hn).1]
    exact hsound.lives.entries e (List.mem_of_getElem? hn)
  obtain ⟨u, htu, r, hr⟩ :=
    (work_run hx hsound hn).ends (jobHost_phased settings honest) hending
  obtain ⟨hu, e, hn⟩ := search_there hsound hn htu
  cases hs : e.settled with
  | true => exact ⟨u, htu, e, hn, hs⟩
  | false =>
    obtain ⟨v, huv, hv⟩ := hx.marked u n e r hn ((workOf_eq hn).1.symm.trans hr) hs
    obtain ⟨e1, r1, hn1, -, hs1, hafter⟩ := step_markSettled (Execution.occurred hv)
    rw [markInFlightSettled_eq (search_there hu hn huv).1.ok hn1 hs1] at hafter
    refine ⟨v + 1, by omega, { e1 with settled := true }, ?_, rfl⟩
    rw [hafter]
    exact getElem?_set_here hn1 _

/-- The call has joined the search `n`. -/
structure WaitsFor (settings : Settings) (honest : Bool) (i n : Nat) (s : Process) : Prop where
  sound : Sound settings honest s
  call : ∃ c w, s.calls[i]? = some c ∧ c.wait = some w ∧ w.entry = n

theorem WaitsFor.next {ev : Event} (h : WaitsFor settings honest i n s)
    (hs : step settings platform leases honest s ev = some s') :
    WaitsFor settings honest i n s' := by
  have ha := step_advances h.sound.ok hs
  refine ⟨h.sound.next hs, ?_⟩
  obtain ⟨c, w, hi, hw, rfl⟩ := h.call
  obtain ⟨c', hi', hnext⟩ := ha.call hi
  have hok' := ha.calls c' (List.mem_of_getElem? hi')
  have hok := h.sound.ok.calls c (List.mem_of_getElem? hi)
  obtain ⟨w', hw', hentry⟩ := (next_call hok hok' hnext).wait w hw
  exact ⟨c', w', hi', hw', hentry⟩

theorem waiting_settles (hx : Diligent x) (ht : WaitsFor settings honest i n (x.state t)) :
    ∃ u ≥ t, ∃ c r, (x.state u).calls[i]? = some c ∧ c.outcome = some r := by
  have ⟨c, w, hi, hw, heq⟩ := ht.call
  obtain ⟨e, hn, -⟩ := (ht.sound.known.answers c (List.mem_of_getElem? hi)).key w hw
  obtain ⟨u, htu, e, hn, hs⟩ := search_settles hx ht.sound (heq ▸ hn)
  have hu : WaitsFor settings honest i n (x.state u) :=
    Execution.stays (fun _ _ _ => WaitsFor.next) htu ht
  obtain ⟨c, w, hi, hw, rfl⟩ := hu.call
  cases ho : c.outcome with
  | some r => exact ⟨u, htu, c, r, hi, ho⟩
  | none =>
    have hended := (hu.sound.ok.calls c (List.mem_of_getElem? hi)).ended w hw
    rw [ho, Option.isSome_none, eq_comm, Bool.or_eq_false_iff] at hended
    obtain ⟨v, huv, hv⟩ := hx.told u i c w e hi hw hn hs hended.1
    obtain ⟨c1, w1, e1, r1, hi1, -, -, -, -, -, hafter⟩ := step_deliver (Execution.occurred hv)
    have houtcome : (deliver c1 w1 e1 r1).1.outcome.isSome = true := by
      show (c1.outcome.or _).isSome = true
      cases c1.outcome <;> rfl
    obtain ⟨r, hr⟩ := Option.isSome_iff_exists.mp houtcome
    refine ⟨v + 1, by omega, _, r, ?_, hr⟩
    rw [hafter]
    exact getElem?_set_here hi1 _

/-- **Every call settles**, whatever the cache, the leases and the provider answer,
and whoever disconnects. -/
theorem calls_settle (hx : Diligent x) (hsound : Sound settings honest (x.state t)) {c : Call}
    (hi : (x.state t).calls[i]? = some c) :
    ∃ u ≥ t, ∃ c r, (x.state u).calls[i]? = some c ∧ c.outcome = some r := by
  have hending : Ending (jobHost settings honest) InTime (lookupOf i (x.state t)) := by
    rw [(lookupOf_eq hi).1]
    exact (hsound.lives.calls c (List.mem_of_getElem? hi)).lookup
  obtain ⟨u, htu, r, hr⟩ := (lookup_run hx hsound hi).ends (jobHost_phased settings honest) hending
  obtain ⟨hu, c, hi⟩ := call_there hsound hi htu
  have hturned := (hu.lives.calls c (List.mem_of_getElem? hi)).turned
  rcases hturned r ((lookupOf_eq hi).1.symm.trans hr) with ho | hw
  · obtain ⟨r, ho⟩ := Option.isSome_iff_exists.mp ho
    exact ⟨u, htu, c, r, hi, ho⟩
  · obtain ⟨w, hw⟩ := Option.isSome_iff_exists.mp hw
    obtain ⟨v, huv, h⟩ := waiting_settles hx ⟨hu, c, w, hi, hw, rfl⟩
    exact ⟨v, by omega, h⟩

end

end NewsApi.Services
