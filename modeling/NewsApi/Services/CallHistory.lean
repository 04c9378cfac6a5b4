import NewsApi.Services.Cluster

/-! # What stays of a call

Calls are numbered in the order in which they arrive. A call keeps its options,
it settles once, and only its own signal says that its client has gone. -/
namespace NewsApi.Services
open NewsApi.Async NewsApi.Text NewsApi.Types NewsApi.Config NewsApi.Errors NewsApi.Runtime
open NewsApi.Collections NewsApi.Cache

/-- A call afterwards; `left` where its signal may have aborted meanwhile. -/
structure Call.Stays (left : Prop) (c c' : Call) : Prop where
  options : c'.options = c.options
  outcome : ∀ r, c.outcome = some r → c'.outcome = some r
  client : c'.lo.client = true → c.lo.client = true ∨ left

def CallsStay (left : Nat → Prop) (calls calls' : List Call) : Prop :=
  calls'.length = calls.length ∧
    ∀ (i : Nat) c, calls[i]? = some c → ∃ c', calls'[i]? = some c' ∧ c.Stays (left i) c'

variable {settings : Settings} {platform : Platform} {leases honest : Bool}
  {s s' : Process} {c c' : Call} {i : Nat} {left left' : Prop}

theorem Call.Stays.refl (left : Prop) (c : Call) : c.Stays left c := ⟨rfl, fun _ => id, .inl⟩

theorem Call.Stays.mono (h : c.Stays left c') (hl : left → left') : c.Stays left' c' :=
  ⟨h.options, h.outcome, fun hc => (h.client hc).imp_right hl⟩

theorem Call.stays_settle (left : Prop) (c : Call) (r : Except JsError ArticleSearchResult) :
    c.Stays left (c.settle r) :=
  ⟨rfl, fun r' hr => by rw [settle, hr]; rfl, .inl⟩

theorem waitForInFlightSearch_stays (c : Call) (n : Nat) (existing : Bool) (e : InFlightSearch) :
    c.Stays left (waitForInFlightSearch c n existing e).1 := by
  unfold waitForInFlightSearch
  split
  · exact c.stays_settle left _
  · exact ⟨rfl, fun _ => id, .inl⟩

theorem deliver_stays (c : Call) (w : Wait) (e : InFlightSearch)
    (r : Except JsError ArticleSearchResult) : c.Stays left (deliver c w e r).1 :=
  ⟨rfl, (c.stays_settle left _).outcome, .inl⟩

theorem CallsStay.mono {left left' : Nat → Prop} {calls calls' : List Call}
    (h : CallsStay left calls calls') (hl : ∀ i, left i → left' i) :
    CallsStay left' calls calls' := by
  refine ⟨h.1, fun i c hi => ?_⟩
  obtain ⟨c', hi', hc⟩ := h.2 i c hi
  exact ⟨c', hi', hc.mono (hl i)⟩

/-! ## One event -/

theorem CallsStay.same {left : Nat → Prop} {calls calls' : List Call} (h : calls' = calls) :
    CallsStay left calls calls' := by
  subst h
  exact ⟨rfl, fun i c hi => ⟨c, hi, .refl _ c⟩⟩

theorem CallsStay.set {left : Nat → Prop} {calls calls' : List Call} (hi : calls[i]? = some c)
    (hc : c.Stays (left i) c') (h : calls' = calls.set i c') : CallsStay left calls calls' := by
  subst h
  refine ⟨List.length_set, fun j d hj => ?_⟩
  exact getElem?_set_goes (R := fun j => Call.Stays (left j)) hi hc (fun j d _ => .refl _ d) hj

variable (settings platform leases honest) in
/-- A call goes on: no other call changes. -/
theorem continueCall_calls (left : Prop) (s : Process) (i : Nat) (c : Call) :
    ∃ c', (continueCall settings platform leases honest s i c).calls = s.calls.set i c' ∧
      c.Stays left c' := by
  unfold continueCall
  split
  · exact ⟨_, rfl, c.stays_settle left _⟩
  · exact ⟨_, rfl, c.stays_settle left _⟩
  · unfold joinInFlightSearch
    dsimp only
    split
    · exact ⟨_, rfl, waitForInFlightSearch_stays c _ _ _⟩
    · exact ⟨_, rfl, waitForInFlightSearch_stays c _ _ _⟩
  · exact ⟨_, rfl, .refl left c⟩

theorem disconnect_calls (s : Process) (i : Nat) (c : Call) :
    ∃ c', (disconnect s i c).calls = s.calls.set i c' ∧ c.Stays True c' := by
  have hgone : c.Stays True { c with lo.client := true } := ⟨rfl, fun _ => id, fun _ => .inr trivial⟩
  unfold disconnect
  dsimp only
  split
  · split
    · split
      · refine ⟨_, rfl, rfl, ?_, fun _ => .inr trivial⟩
        exact (Call.stays_settle True { c with lo.client := true, wait := _ } _).outcome
      · exact ⟨_, rfl, hgone⟩
    · exact ⟨_, rfl, hgone⟩
  · exact ⟨_, rfl, hgone⟩

/-- A call arrives. -/
def Event.arrives : Event → Bool
  | .call .. => true
  | _ => false

theorem step_arrives {options : ArticleSearchOptions} {signal : Option Bool}
    {randoms : Nat → Rat} {uuid : JsString}
    (hs : step settings platform leases honest s (.call options signal randoms uuid) = some s') :
    ∃ c, s'.calls = s.calls ++ [c] ∧ c.options = options ∧ c.lo.client = signal.getD false := by
  cases hs
  obtain ⟨c, heq, hoptions, -, hlo, -⟩ :=
    searchArticles_cases settings platform leases honest s options signal randoms uuid
  exact ⟨c, by rw [heq], hoptions, by rw [hlo]⟩

/-- No other event adds a call. -/
theorem step_calls {ev : Event} (hev : ev.arrives = false)
    (hs : step settings platform leases honest s ev = some s') :
    CallsStay (fun i => ev = .disconnect i) s.calls s'.calls := by
  cases ev with
  | call options signal randoms uuid => cases hev
  | callReply i answer =>
    obtain ⟨c, lookup, v, hi, hr, rfl⟩ := step_callReply hs
    obtain ⟨c', hcalls, hc⟩ := continueCall_calls settings platform leases honest
      (Event.callReply i answer = .disconnect i)
      { s with sh := v.sh } i { c with lo := v.lo, lookup := lookup }
    have hclient : v.lo.client = c.lo.client := (forward_resume_any hr).client
    refine .set hi ⟨hc.options, hc.outcome, fun h => ?_⟩ hcalls
    exact (hc.client h).imp_left hclient.symm.trans
  | jobReply n answer =>
    obtain ⟨e, promise, v, hn, hr, rfl⟩ := step_jobReply hs
    exact .same rfl
  | markSettled n =>
    obtain ⟨e, r, hn, hp, hsettled, rfl⟩ := step_markSettled hs
    refine .same ?_
    unfold markInFlightSettled
    dsimp only
    split <;> rfl
  | deliver i =>
    obtain ⟨c, w, e, r, hi, hw, hn, hp, -, -, rfl⟩ := step_deliver hs
    exact .set hi (deliver_stays c w e r) rfl
  | disconnect i =>
    obtain ⟨c, hi, -, rfl⟩ := step_disconnect hs
    obtain ⟨c', hcalls, hc⟩ := disconnect_calls s i c
    exact .set hi (hc.mono fun _ => rfl) hcalls
  | shutdown =>
    cases hs
    exact .same rfl
  | deadline n =>
    obtain ⟨e, lo, hn, hlo, rfl⟩ := step_deadline hs
    exact .same rfl
  | renewed n result =>
    obtain ⟨e, lo, hn, hlo, rfl⟩ := step_renewed hs
    exact .same rfl
  | elapse ms =>
    cases hs
    exact .same rfl

/-! ## Searches of calls -/

/-- The options of the searches. -/
def Process.searched (s : Process) : List ArticleSearchOptions := s.entries.map (·.options)

theorem searched_set {n : Nat} {e e' : InFlightSearch} (hn : s.entries[n]? = some e)
    (hs : s'.entries = s.entries.set n e') (ho : e'.options = e.options) :
    s'.searched = s.searched := by
  obtain ⟨hlt, rfl⟩ := List.getElem?_eq_some_iff.mp hn
  unfold Process.searched
  refine List.ext_getElem? fun m => ?_
  rw [hs, List.map_set, ho, List.getElem?_set]
  split
  · rename_i heq
    subst heq
    simp [hlt]
  · rfl

theorem unsubscribe_options (e : InFlightSearch) : e.unsubscribe.options = e.options := by
  unfold InFlightSearch.unsubscribe
  dsimp only
  split <;> rfl

theorem release_options (w : Wait) (e : InFlightSearch) :
    (release w e).2.options = e.options := by
  unfold release
  split
  · rfl
  · exact unsubscribe_options e

theorem waitForInFlightSearch_options (c : Call) (n : Nat) (existing : Bool)
    (e : InFlightSearch) : (waitForInFlightSearch c n existing e).2.options = e.options := by
  unfold waitForInFlightSearch
  split <;> rfl

variable (settings platform leases honest) in
/-- A call creates a search of its own options at most. -/
theorem continueCall_searched (s : Process) (i : Nat) (c : Call) :
    (continueCall settings platform leases honest s i c).searched = s.searched ∨
      (continueCall settings platform leases honest s i c).searched = s.searched ++ [c.options] := by
  unfold continueCall
  split
  · exact .inl rfl
  · exact .inl rfl
  · unfold joinInFlightSearch
    dsimp only
    split
    · rename_i n e hjoin
      obtain ⟨m, -, hm⟩ := Option.bind_eq_some_iff.mp hjoin
      obtain ⟨e', hn, heq⟩ := Option.map_eq_some_iff.mp hm
      cases heq
      exact .inl (searched_set (s := s) hn rfl (waitForInFlightSearch_options c n true e))
    · refine .inr ?_
      simp [Process.searched, Process.setEntry, Process.setCall, createInFlightSearch,
        waitForInFlightSearch_options]
  · exact .inl rfl

theorem disconnect_searched (s : Process) (i : Nat) (c : Call) :
    (disconnect s i c).searched = s.searched := by
  unfold disconnect
  dsimp only
  split
  · split
    · split
      · rename_i w _ _ _ e hn
        exact searched_set (s := s) hn rfl (release_options w e)
      · rfl
    · rfl
  · rfl

/-- A search is created for a call whose lookup has been answered. -/
theorem step_searched {ev : Event} (hs : step settings platform leases honest s ev = some s') :
    s'.searched = s.searched ∨
      ∃ i answer c, ev = .callReply i answer ∧ s.calls[i]? = some c ∧
        s'.searched = s.searched ++ [c.options] := by
  cases ev with
  | call options signal randoms uuid =>
    cases hs
    obtain ⟨c, heq, -⟩ :=
      searchArticles_cases settings platform leases honest s options signal randoms uuid
    rw [heq]
    exact .inl rfl
  | callReply i answer =>
    obtain ⟨c, lookup, v, hi, hr, rfl⟩ := step_callReply hs
    exact (continueCall_searched settings platform leases honest { s with sh := v.sh } i
      { c with lo := v.lo, lookup := lookup }).imp_right fun h => ⟨i, answer, c, rfl, hi, h⟩
  | jobReply n answer =>
    obtain ⟨e, promise, v, hn, hr, rfl⟩ := step_jobReply hs
    exact .inl (searched_set hn rfl rfl)
  | markSettled n =>
    obtain ⟨e, r, hn, hp, hsettled, rfl⟩ := step_markSettled hs
    refine .inl (searched_set hn ?_ (show { e with settled := true }.options = e.options from rfl))
    unfold markInFlightSettled
    dsimp only
    split <;> rfl
  | deliver i =>
    obtain ⟨c, w, e, r, hi, hw, hn, hp, -, -, rfl⟩ := step_deliver hs
    exact .inl (searched_set hn rfl (release_options w e))
  | disconnect i =>
    obtain ⟨c, hi, -, rfl⟩ := step_disconnect hs
    exact .inl (disconnect_searched s i c)
  | shutdown =>
    cases hs
    exact .inl rfl
  | deadline n =>
    obtain ⟨e, lo, hn, hlo, rfl⟩ := step_deadline hs
    exact .inl (searched_set hn rfl rfl)
  | renewed n result =>
    obtain ⟨e, lo, hn, hlo, rfl⟩ := step_renewed hs
    exact .inl (searched_set hn rfl rfl)
  | elapse ms =>
    cases hs
    exact .inl rfl

/-! ## In a cluster -/

/-- The calls of the replica `r`. -/
def Cluster.calls (c : Cluster) (r : Nat) : List Call := (c.replicas[r]?.map (·.calls)).getD []

theorem Cluster.calls_of {c : Cluster} {r : Nat} {p : Process} (h : c.replicas[r]? = some p) :
    c.calls r = p.calls := by rw [calls, h]; rfl

theorem Cluster.mem_calls {c : Cluster} {r : Nat} {call : Call} (h : call ∈ c.calls r) :
    ∃ p ∈ c.replicas, call ∈ p.calls := by
  unfold calls at h
  cases hp : c.replicas[r]? with
  | none => rw [hp] at h; cases h
  | some p =>
    rw [hp] at h
    exact ⟨p, List.mem_of_getElem? hp, h⟩

/-- The calls afterwards, where one replica has made a step. -/
theorem Cluster.calls_set {c : Cluster} {r : Nat} {p : Process} (h : c.replicas[r]? = some p)
    (p' : Process) (r' : Nat) :
    Cluster.calls { c with replicas := c.replicas.set r p' } r' =
      if r' = r then p'.calls else c.calls r' := by
  unfold calls
  dsimp only
  split
  · rename_i heq
    rw [heq, getElem?_set_here h p']
    rfl
  · rename_i hne
    rw [List.getElem?_set_ne (Ne.symm hne)]

/-- One replica has made a step, or none has. -/
theorem clusterStep_replicas {c c' : Cluster} {ev : ClusterEvent}
    (hs : clusterStep settings platform honest c ev = some c') :
    (∃ r event delivery p p', ev = .replica r event delivery ∧ c.replicas[r]? = some p ∧
      step settings platform true honest p (c.answered delivery event) = some p' ∧
      c' = { c with replicas := c.replicas.set r p' }) ∨
      (∀ r event delivery, ev ≠ .replica r event delivery) ∧ c'.replicas = c.replicas := by
  cases ev with
  | replica r event delivery =>
    obtain ⟨p, hp, hs⟩ := Option.bind_eq_some_iff.mp hs
    obtain ⟨p', hstep, rfl⟩ := Option.map_eq_some_iff.mp hs
    exact .inl ⟨r, event, delivery, p, p', rfl, hp, hstep, rfl⟩
  | sendLookup r i =>
    obtain ⟨p, hp, hs⟩ := Option.bind_eq_some_iff.mp hs
    obtain ⟨call, hi, hs⟩ := Option.bind_eq_some_iff.mp hs
    obtain ⟨command, hsent, rfl⟩ := Option.map_eq_some_iff.mp hs
    exact .inr ⟨by rintro _ _ _ ⟨⟩, rfl⟩
  | sendWork r n =>
    obtain ⟨p, hp, hs⟩ := Option.bind_eq_some_iff.mp hs
    obtain ⟨e, hn, hs⟩ := Option.bind_eq_some_iff.mp hs
    obtain ⟨command, hsent, rfl⟩ := Option.map_eq_some_iff.mp hs
    exact .inr ⟨by rintro _ _ _ ⟨⟩, rfl⟩
  | execute k =>
    obtain ⟨command, hk, rfl⟩ := Option.map_eq_some_iff.mp hs
    exact .inr ⟨by rintro _ _ _ ⟨⟩, rfl⟩
  | foreign key entry =>
    simp only [clusterStep] at hs
    split at hs <;> cases hs
    exact .inr ⟨by rintro _ _ _ ⟨⟩, rfl⟩
  | _ =>
    cases hs
    exact .inr ⟨by rintro _ _ _ ⟨⟩, rfl⟩

def ClusterEvent.arrives : ClusterEvent → Bool
  | .replica _ event _ => event.arrives
  | _ => false

theorem clusterStep_arrives {c c' : Cluster} {r : Nat} {options : ArticleSearchOptions}
    {signal : Option Bool} {randoms : Nat → Rat} {uuid : JsString} {delivery : Delivery}
    (hs : clusterStep settings platform honest c
      (.replica r (.call options signal randoms uuid) delivery) = some c') :
    ∃ call, (∀ r', c'.calls r' = if r' = r then c.calls r ++ [call] else c.calls r') ∧
      call.options = options ∧ call.lo.client = signal.getD false := by
  obtain ⟨p, hp, hs⟩ := Option.bind_eq_some_iff.mp hs
  obtain ⟨p', hstep, rfl⟩ := Option.map_eq_some_iff.mp hs
  obtain ⟨call, hcalls, h⟩ := step_arrives hstep
  refine ⟨call, fun r' => ?_, h⟩
  rw [Cluster.calls_set hp, hcalls, Cluster.calls_of hp]

/-- No other event adds a call. -/
theorem clusterStep_calls {c c' : Cluster} {ev : ClusterEvent} (hev : ev.arrives = false)
    (hs : clusterStep settings platform honest c ev = some c') (r : Nat) :
    CallsStay (fun i => ∃ delivery, ev = .replica r (.disconnect i) delivery)
      (c.calls r) (c'.calls r) := by
  rcases clusterStep_replicas hs with ⟨r', event, delivery, p, p', rfl, hp, hstep, rfl⟩ | ⟨-, hsame⟩
  · rw [Cluster.calls_set hp]
    split
    · rename_i heq
      rw [heq, Cluster.calls_of hp]
      have hevent : (c.answered delivery event).arrives = false := by
        cases event <;> exact hev
      refine (step_calls hevent hstep).mono fun i heq => ⟨delivery, ?_⟩
      cases event <;> cases heq
      rfl
    · exact .same rfl
  · exact .same (by rw [Cluster.calls, hsame, Cluster.calls])

/-- Every search has the options of a call of its process. -/
def Process.Attributed (s : Process) : Prop :=
  ∀ options ∈ s.searched, ∃ c ∈ s.calls, c.options = options

theorem attributed_step {ev : Event} (h : s.Attributed)
    (hs : step settings platform leases honest s ev = some s') : s'.Attributed := by
  have hcalls : ∀ c ∈ s.calls, ∃ c' ∈ s'.calls, c'.options = c.options := by
    intro c hc
    cases hev : ev.arrives with
    | true =>
      cases ev <;> cases hev
      obtain ⟨new, hcalls, -⟩ := step_arrives hs
      exact ⟨c, hcalls ▸ List.mem_append_left _ hc, rfl⟩
    | false =>
      obtain ⟨i, hi⟩ := List.mem_iff_getElem?.mp hc
      obtain ⟨c', hi', hstays⟩ := (step_calls hev hs).2 i c hi
      exact ⟨c', List.mem_of_getElem? hi', hstays.options⟩
  have hold : ∀ options ∈ s.searched, ∃ c' ∈ s'.calls, c'.options = options := by
    intro options ho
    obtain ⟨c, hc, rfl⟩ := h options ho
    exact hcalls c hc
  rcases step_searched hs with hsame | ⟨i, answer, c, -, hi, hnew⟩
  · rwa [Process.Attributed, hsame]
  · rw [Process.Attributed, hnew]
    exact List.forall_mem_append.mpr ⟨hold, List.forall_mem_singleton.mpr (hcalls c (List.mem_of_getElem? hi))⟩

theorem attributed_of_reachable {k : Nat} {db : Lease.Db} {c : Cluster}
    (hs : Reachable (clusterStep settings platform honest) (.initial k db) c) :
    ∀ p ∈ c.replicas, p.Attributed := by
  refine hs.invariant (P := fun c => ∀ p ∈ c.replicas, p.Attributed) (fun p hp => ?_)
    fun c ev c' h hstep => ?_
  · rw [(List.mem_replicate.mp hp).2]
    exact List.forall_mem_nil _
  · rcases clusterStep_replicas hstep with ⟨r, _, _, p, p', -, hp, hmove, rfl⟩ | ⟨-, hsame⟩
    · exact mem_set h (attributed_step (h p (List.mem_of_getElem? hp)) hmove)
    · rwa [hsame]

end NewsApi.Services
