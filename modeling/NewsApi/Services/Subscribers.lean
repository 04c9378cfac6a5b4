import NewsApi.Services.Accounting

/-! # Subscribers

What the accounts of a process mean for its in-flight searches: one at a time
for a key, a subscriber for every call that waits, an abort by the last of them
only. A search that nobody waits for runs on only if the call that created it
was gone before it could subscribe. -/
namespace NewsApi.Services
open NewsApi.Async NewsApi.Text NewsApi.Types NewsApi.Config NewsApi.Errors
open NewsApi.Runtime NewsApi.Async.SingleFlight

/-- The call waits for the in-flight search `n`: neither delivered nor aborted. -/
def Call.waitsOn (n : Nat) (c : Call) : Bool :=
  c.wait.any fun w => w.entry == n && !w.delivered && !c.lo.client

/-- The accounts of the in-flight searches. -/
structure Accounted (s : Process) : Prop where
  single : ∀ (n m : Nat) e f, s.entries[n]? = some e → s.entries[m]? = some f →
    e.cacheKey = f.cacheKey → e.settled = false → f.settled = false → n = m
  /-- two runs of `fetchArticlesFromUpstream` for one key never overlap -/
  running : ∀ (n m : Nat) e f, s.entries[n]? = some e → s.entries[m]? = some f →
    e.cacheKey = f.cacheKey → (∀ r, e.promise ≠ .pure r) → (∀ r, f.promise ≠ .pure r) → n = m
  subscribers : ∀ (n : Nat) e, s.entries[n]? = some e →
    e.subscribers = s.calls.countP (Call.waitsOn n)
  mapped : ∀ (n : Nat) e, s.entries[n]? = some e → e.settled = false →
    s.inFlightSearches e.cacheKey = some n

/-- What one event may do to the in-flight search `n`. -/
structure InFlightSearch.Next (s s' : Process) (n : Nat) (e e' : InFlightSearch) : Prop where
  key : e'.cacheKey = e.cacheKey
  aborted : e.lo.client = false → e'.lo.client = true →
    e'.settled = false ∧ e.subscribers = 1 ∧ e'.subscribers = 0
  /-- as long as a call waits its work is not cancelled -/
  attended : (∃ c ∈ s'.calls, c.waitsOn n = true) → e'.lo.client = e.lo.client
  unmapped : s.inFlightSearches e.cacheKey = some n → s'.inFlightSearches e.cacheKey ≠ some n →
    e'.settled = true

/-- A call waits for one search and is counted down once. -/
structure Call.Next (c c' : Call) : Prop where
  wait : ∀ w, c.wait = some w → ∃ w', c'.wait = some w' ∧ w'.entry = w.entry
  released : c.wait.isSome = true → ∀ n, c.waitsOn n = false → c'.waitsOn n = false

/-- Work that goes on is waited for. -/
def NoOrphan (s : Process) : Prop :=
  ∀ key (n : Nat) e, s.inFlightSearches key = some n → s.entries[n]? = some e →
    e.settled = false → e.lo.client = false → ∃ c ∈ s.calls, c.waitsOn n = true

variable {settings : Settings} {platform : Platform} {leases honest : Bool}
  {s s' : Process} {c c' : Call} {e e' : InFlightSearch} {i n : Nat}

/-! ## Accounts -/

theorem waitsFor_caller (h : c.Ok) (n : Nat) : c.caller.waitsFor n = c.waitsOn n := by
  unfold Call.waitsOn Caller.waitsFor Call.caller Call.stage
  cases hw : c.wait with
  | none => cases c.outcome <;> rfl
  | some w =>
    have hended := h.ended w hw
    cases ho : c.outcome with
    | none =>
      rw [ho, Option.isSome_none, eq_comm, Bool.or_eq_false_iff] at hended
      simp [hended]
    | some r =>
      rw [ho, Option.isSome_some, eq_comm, Bool.or_eq_true_iff] at hended
      rcases hended with hd | hc <;> simp [*]

theorem Process.Ok.subscribers (h : s.Ok) (hn : s.entries[n]? = some e) :
    e.subscribers = s.calls.countP (Call.waitsOn n) := by
  have hcount : e.flight.subscribers = s.board.callers.countP (Caller.waitsFor n) :=
    h.board.count n e.flight (board_flights hn)
  rw [show e.subscribers = e.flight.subscribers from rfl, hcount]
  unfold Process.board
  rw [List.countP_map]
  congr 1
  refine List.countP_congr fun c hc => ?_
  rw [Function.comp_apply, waitsFor_caller (h.calls c hc)]

theorem Process.Ok.accounted (h : s.Ok) : Accounted s := by
  have hmapped : ∀ (n : Nat) e, s.entries[n]? = some e → e.settled = false →
      s.inFlightSearches e.cacheKey = some n := fun n e hn hs =>
    h.board.mapped n e.flight (board_flights hn) hs
  have hsingle : ∀ (n m : Nat) e f, s.entries[n]? = some e → s.entries[m]? = some f →
      e.cacheKey = f.cacheKey → e.settled = false → f.settled = false → n = m := by
    intro n m e f hn hm hkey he hf
    have hmap := hmapped n e hn he
    rw [hkey, hmapped m f hm hf] at hmap
    exact (Option.some.inj hmap).symm
  have hunsettled : ∀ (n : Nat) e, s.entries[n]? = some e → (∀ r, e.promise ≠ .pure r) →
      e.settled = false := by
    intro n e hn hrun
    by_contra hs
    obtain ⟨r, hp⟩ := (h.entries e (List.mem_of_getElem? hn)).settled (eq_true_of_ne_false hs)
    exact hrun r hp
  exact ⟨hsingle, fun n m e f hn hm hkey he hf =>
    hsingle n m e f hn hm hkey (hunsettled n e hn he) (hunsettled m f hm hf),
    fun n e => h.subscribers, hmapped⟩

/-! ## One event -/

/-- The accounts of an in-flight search after one event. -/
theorem Advances.entry (ha : Advances s s') (hn : s.entries[n]? = some e) :
    ∃ e', s'.entries[n]? = some e' ∧ Flight.Next s.board s'.board n e.flight e'.flight := by
  obtain ⟨f, hf, hnext⟩ : ∃ f, s'.board.flights[n]? = some f ∧
      Flight.Next s.board s'.board n e.flight f := by
    rcases ha.moves with hsame | hstep
    · rw [hsame]
      exact ⟨e.flight, board_flights hn, .same id⟩
    · exact hstep.flight (board_flights hn)
  obtain ⟨e', hn', rfl⟩ := Option.map_eq_some_iff.mp (List.getElem?_map.symm.trans hf)
  exact ⟨e', hn', hnext⟩

theorem Advances.call (ha : Advances s s') (hi : s.calls[i]? = some c) :
    ∃ c', s'.calls[i]? = some c' ∧ Caller.Next c.caller c'.caller := by
  obtain ⟨d, hd, hnext⟩ : ∃ d, s'.board.callers[i]? = some d ∧ Caller.Next c.caller d := by
    rcases ha.moves with hsame | hstep
    · rw [hsame]
      exact ⟨c.caller, board_callers hi, .refl _⟩
    · exact hstep.caller (board_callers hi)
  obtain ⟨c', hi', rfl⟩ := Option.map_eq_some_iff.mp (List.getElem?_map.symm.trans hd)
  exact ⟨c', hi', hnext⟩

theorem next_search (h' : s'.Ok) (hn' : s'.entries[n]? = some e')
    (hnext : Flight.Next s.board s'.board n e.flight e'.flight) : e.Next s s' n e' where
  key := hnext.key
  aborted := hnext.abort
  attended := by
    rintro ⟨c, hc, hw⟩
    cases ha : e.lo.client with
    | true => exact hnext.aborted ha
    | false =>
      by_contra hab
      obtain ⟨-, -, hz⟩ := hnext.abort ha (eq_true_of_ne_false hab)
      have hcount := h'.subscribers hn'
      rw [show e'.subscribers = 0 from hz] at hcount
      exact List.countP_eq_zero.mp (Int.ofNat_eq_zero.mp hcount.symm) c hc hw
  unmapped := hnext.unmap

theorem stage_wait {late : Bool} (h : c.stage = .waiting n late ∨ c.stage = .released n late) :
    ∃ w, c.wait = some w ∧ w.entry = n := by
  unfold Call.stage at h
  split at h <;> simp_all

theorem next_call (h : c.Ok) (h' : c'.Ok) (hnext : Caller.Next c.caller c'.caller) :
    c.Next c' where
  wait w hw := by
    cases ho : c.outcome with
    | none =>
      have hs : c.stage = .waiting w.entry w.foundAborted := by simp [Call.stage, hw, ho]
      exact stage_wait (hnext.waiting _ _ hs)
    | some r =>
      have hs : c.stage = .released w.entry w.foundAborted := by simp [Call.stage, hw, ho]
      exact stage_wait (.inr (hnext.released _ _ hs))
  released hsome n hz := by
    obtain ⟨w, hw⟩ := Option.isSome_iff_exists.mp hsome
    rw [← waitsFor_caller h] at hz
    rw [← waitsFor_caller h']
    cases ho : c.outcome with
    | none =>
      have hs : c.stage = .waiting w.entry w.foundAborted := by simp [Call.stage, hw, ho]
      have hne : (w.entry == n) = false := by simpa [Caller.waitsFor, Call.caller, hs] using hz
      have := hnext.waiting _ _ hs
      rcases this with hs' | hs' <;> simp [Caller.waitsFor, hs', hne]
    | some r =>
      have hs : c.stage = .released w.entry w.foundAborted := by simp [Call.stage, hw, ho]
      simp [Caller.waitsFor, hnext.released _ _ hs]

/-- In every reachable state the accounts are right, and whatever happens next
an in-flight search is aborted by its last subscriber only, before it settles,
leaves the map only settled, and no call is counted down twice. -/
theorem single_flight (hs : Reachable (step settings platform leases honest) .initial s) :
    Accounted s ∧ ∀ ev s', step settings platform leases honest s ev = some s' →
      (∀ (n : Nat) e, s.entries[n]? = some e →
        ∃ e', s'.entries[n]? = some e' ∧ e.Next s s' n e') ∧
      (∀ (i : Nat) c, s.calls[i]? = some c → ∃ c', s'.calls[i]? = some c' ∧ c.Next c') := by
  have h := ok_of_reachable hs
  refine ⟨h.accounted, fun ev s' hstep => ?_⟩
  have ha := step_advances h hstep
  refine ⟨fun n e hn => ?_, fun i c hi => ?_⟩
  · obtain ⟨e', hn', hnext⟩ := ha.entry hn
    exact ⟨e', hn', next_search (ha.ok h) hn' hnext⟩
  · obtain ⟨c', hi', hnext⟩ := ha.call hi
    refine ⟨c', hi', next_call (h.calls c (List.mem_of_getElem? hi)) ?_ hnext⟩
    exact ha.calls c' (List.mem_of_getElem? hi')

/-! ## Sample runs -/

def sampleOptions : ArticleSearchOptions :=
  ⟨js "q", 10, 1, none, none, none, none, none⟩

/-- A store that works and has nothing; the provider has no articles. -/
def emptyStore : (c : Command) → Option (Reply c)
  | .storeGet _ => some (.ok none)
  | .storeSet _ _ _ => some (.ok ())
  | .storeDelete _ => some (.ok ())
  | .tryAcquireLease _ _ _ => some (.ok true)
  | .releaseLease _ _ => some (.ok ())
  | .axiosGet _ => some (.ok (.obj [(js "articles", .arr [])]))
  | .tick => some ()
  | _ => none

def sampleCall (signal : Option Bool) : Event :=
  .call sampleOptions signal (fun _ => 0) (js "a")

/-- Two calls wait for one search; the first disconnects. -/
def oneLeaves : List Event :=
  [sampleCall (some false), sampleCall none, .callReply 0 emptyStore, .callReply 0 emptyStore,
    .callReply 1 emptyStore, .callReply 1 emptyStore, .disconnect 0]

theorem single_flight_oneLeaves :
    ∃ s, run (step .default .plain false true) .initial oneLeaves = some s ∧
      s.entries.map (fun e => (e.subscribers, e.lo.client)) = [(1, false)] ∧ Accounted s := by
  have hrun : (run (step .default .plain false true) .initial oneLeaves).map
      (fun s => s.entries.map fun e => (e.subscribers, e.lo.client)) = some [(1, false)] := rfl
  obtain ⟨s, hs, he⟩ := Option.map_eq_some_iff.mp hrun
  exact ⟨s, hs, he, (single_flight ⟨_, hs⟩).1⟩

/-- In every run in which no call whose own signal is already aborted creates
an in-flight search, work that goes on is waited for. -/
theorem work_attended (hs : Reachable (step settings platform leases honest) .initial s)
    (hcreators : ∀ e ∈ s.entries, e.creatorAborted = false) : NoOrphan s := by
  have h := ok_of_reachable hs
  intro key n e hmap hn hsettled haborted
  have hpos : 0 < e.subscribers :=
    h.board.subscribed n e.flight (board_flights hn) hsettled haborted
      (hcreators e (List.mem_of_getElem? hn))
  rw [h.subscribers hn] at hpos
  exact List.countP_pos_iff.mp (Int.natCast_pos.mp hpos)

theorem work_attended_oneLeaves :
    ∃ s, run (step .default .plain false true) .initial oneLeaves = some s ∧ NoOrphan s := by
  have hrun : (run (step .default .plain false true) .initial oneLeaves).map
      (fun s => s.entries.map (·.creatorAborted)) = some [false] := rfl
  obtain ⟨s, hs, he⟩ := Option.map_eq_some_iff.mp hrun
  refine ⟨s, hs, work_attended ⟨_, hs⟩ fun e hmem => ?_⟩
  have := List.mem_map_of_mem (f := fun e : InFlightSearch => e.creatorAborted) hmem
  rw [he] at this
  exact List.mem_singleton.mp this

/-- The client disconnects while the first lookup is pending. -/
def leavesDuringLookup : List Event :=
  [sampleCall (some false), .callReply 0 emptyStore, .disconnect 0, .callReply 0 emptyStore]

/-- The work goes on and nobody waits for it. -/
theorem work_orphaned :
    ∃ s, run (step .default .plain false true) .initial leavesDuringLookup = some s ∧
      ¬NoOrphan s := by
  have hrun : (run (step .default .plain false true) .initial leavesDuringLookup).map
      (fun s => (s.inFlightSearches (searchCacheKey sampleOptions),
        s.entries.map (fun e => (e.settled, e.lo.client)), s.calls.countP (Call.waitsOn 0))) =
      some (some 0, [(false, false)], 0) := rfl
  obtain ⟨s, hs, h⟩ := Option.map_eq_some_iff.mp hrun
  obtain ⟨hmap, h⟩ := Prod.mk.inj h
  obtain ⟨hentries, hnobody⟩ := Prod.mk.inj h
  refine ⟨s, hs, fun hno => ?_⟩
  have he : (s.entries.map fun e => (e.settled, e.lo.client))[0]? = some (false, false) := by
    rw [hentries]
    rfl
  obtain ⟨e, hn, hflags⟩ := Option.map_eq_some_iff.mp (List.getElem?_map.symm.trans he)
  obtain ⟨hsettled, haborted⟩ := Prod.mk.inj hflags
  obtain ⟨c, hc, hw⟩ := hno _ 0 e hmap hn hsettled haborted
  exact List.countP_eq_zero.mp hnobody c hc hw

end NewsApi.Services
