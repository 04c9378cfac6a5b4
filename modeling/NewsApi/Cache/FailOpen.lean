import NewsApi.Async.Run
import NewsApi.Cache.CoordinatorCommands
import NewsApi.Cache.CoordinatorOutline
import NewsApi.Cache.Heartbeat

/-! # Coordination fails open

One coordination over a store with or without leases whose commands may answer
anything, with any reads and loads, any clock and an abort at any moment. The
log records the calls and outcomes of `load` and the values that `readFresh`
found. -/
namespace NewsApi.Cache.FailOpen
open NewsApi.Async NewsApi.Text NewsApi.Errors NewsApi.Config

inductive LogEntry (T : Type) where
  /-- whether the signal was aborted when `load` was called -/
  | loadCalled (aborted : Bool)
  | loadSettled (result : Except JsError T)
  | freshRead (value : T)

structure World (T : Type) where
  aborted : Bool
  clock : Nat
  uuid : JsString
  randoms : Nat → Rat
  drawn : Nat
  /-- the store has `renewLease` -/
  renews : Bool
  rawHeartbeatMs : Option JsString
  heartbeat : Option Heartbeat
  /-- newest first -/
  log : List (LogEntry T)

variable {T : Type}

def now : (c : CoordinatorCommand) → World T → Option (CoordinatorReply T c × World T)
  | .aborted, s => some (s.aborted, s)
  | .dateNow, s => some (s.clock, s)
  | .random, s => some (s.randoms s.drawn, { s with drawn := s.drawn + 1 })
  | .randomUUID, s => some (s.uuid, s)
  | .startHeartbeat key owner ttlMs, s => some ((), { s with
      heartbeat := if s.renews then some (startLeaseHeartbeat s.rawHeartbeatMs key owner ttlMs)
        else none })
  | .stopHeartbeat, s => some ((), { s with heartbeat := s.heartbeat.map Heartbeat.stop })
  | .setTimeout _, _ | .tryAcquireLease _ _ _, _ | .releaseLease _ _, _ | .readFresh, _
  | .load, _ => none

def issue : CoordinatorCommand → World T → World T
  | .load, s => { s with log := .loadCalled s.aborted :: s.log }
  | _, s => s

/-- Every answer is possible, but a timer rejects only when the signal aborts. -/
def reply : (c : CoordinatorCommand) → CoordinatorReply T c → World T → Option (World T)
  | .load, result, s => some { s with log := .loadSettled result :: s.log }
  | .readFresh, .ok (some value), s => some { s with log := .freshRead value :: s.log }
  | .setTimeout _, .error .requestAborted, s => if s.aborted then some s else none
  | .setTimeout _, .error _, _ => none
  | _, _, s => some s

def host (T : Type) : Host CoordinatorCommand (CoordinatorReply T) (World T) where
  now := now
  issue := issue
  reply := reply

/-! ## Runs -/

/-- The runtime over a store with or without leases. -/
def runtimeOf (T : Type) (leases : Bool) :
    CoordinatorRuntime CoordinatorCommand (CoordinatorReply T) :=
  { coordinatorRuntime T with leaseStore := if leases then some (leaseStore T) else none }

structure Call (T : Type) where
  world : World T
  prog : Prog CoordinatorCommand (CoordinatorReply T)
    (Except JsError (CacheMissCoordinationResult T))

inductive Event (T : Type) where
  | resume (answer : (c : CoordinatorCommand) → Option (CoordinatorReply T c))
  | abort
  /-- any clock, also one that is set back -/
  | setClock (ms : Nat)
  | tick
  | renewed (answer : Except JsError Bool)

/-- `coordinateCacheMiss` has been called and has run to its first await. -/
def start (leases : Bool) (settings : Settings) (platform : Platform) (cacheKey : JsString)
    (world : World T) : Call T :=
  let (prog, world) := (host T).advance (coordinateCacheMiss (runtimeOf T leases) settings platform
    cacheKey (readFresh T) (load T)).run world
  { world := world, prog := prog }

def step (s : Call T) : Event T → Option (Call T)
  | .resume answer => ((host T).resume answer s.prog s.world).map fun (prog, world) =>
      { world := world, prog := prog }
  | .abort => some { s with world.aborted := true }
  | .setClock ms => some { s with world.clock := ms }
  | .tick => (s.world.heartbeat.bind (Heartbeat.renew s.world.aborted)).map fun hb =>
      { s with world.heartbeat := some hb }
  | .renewed answer =>
    match s.world.heartbeat with
    | some hb => if hb.renewalInFlight then
        some { s with world.heartbeat := some (hb.settle answer) } else none
    | none => none

/-- Before the first command. -/
structure World.Initial (s : World T) : Prop where
  log : s.log = []
  heartbeat : s.heartbeat = none

/-! ## What the log says -/

/-- The log at a suspension. -/
inductive Logged : List (LogEntry T) → Prop
  | idle : Logged []
  | fresh (value : T) : Logged [.freshRead value]
  | loading : Logged [.loadCalled false]
  | loaded (result : Except JsError T) : Logged [.loadSettled result, .loadCalled false]

/-- Where the outcome of a coordination comes from. -/
inductive Outcome (s : World T) : Except JsError (CacheMissCoordinationResult T) → Prop
  | loaded {result : Except JsError T} (source : Source) (h : .loadSettled result ∈ s.log) :
      Outcome s (result.map fun value => ⟨value, source⟩)
  | fresh {value : T} (h : .freshRead value ∈ s.log) : Outcome s (.ok ⟨value, .sharedCache⟩)
  | aborted (h : s.aborted = true) : Outcome s (.error .requestAborted)

/-- The log is not touched and the signal stays aborted. -/
structure Meanwhile (s s' : World T) : Prop where
  log : s'.log = s.log
  aborted : s.aborted = true → s'.aborted = true

theorem Outcome.later {s s' : World T} {r : Except JsError (CacheMissCoordinationResult T)}
    (h : Outcome s r) (hs : Meanwhile s s') : Outcome s' r := by
  cases h with
  | loaded source h => exact .loaded source (hs.log ▸ h)
  | fresh h => exact .fresh (hs.log ▸ h)
  | aborted h => exact .aborted (hs.aborted h)

def contract : Contract (World T) where
  inv s := Logged s.log
  rely := Meanwhile
  atLoop _ := True
  rely_refl _ := ⟨rfl, id⟩
  rely_trans h h' := ⟨h'.log.trans h.log, h'.aborted ∘ h.aborted⟩

def abortFlag (T : Type) (leases : Bool) : AbortFlag (host T) contract (runtimeOf T leases) where
  aborted := World.aborted
  wp_aborted _ _ hq := Host.wp_now rfl hq

theorem wp_command {c : CoordinatorCommand} {Q : CoordinatorReply T c → World T → Prop}
    {s : World T} (hn : (host T).now c s = none) (hi : Logged (issue c s).log)
    (hq : ∀ s', Meanwhile (issue c s) s' → ∀ r s'', reply c r s' = some s'' → Q r s'') :
    (host T).wp contract (command T c) Q s :=
  Host.wp_wait hn hi fun s1 h1 _ r s2 h2 => hq s1 h1 r s2 h2

/-! ## The outline -/

/-- Nothing has been loaded or found, and the signal is not aborted. -/
structure Open (s : World T) : Prop where
  log : s.log = []
  aborted : s.aborted = false

/-- The outcome is known and no load is under way. -/
structure Closed (result : Except JsError (CacheMissCoordinationResult T)) (s : World T) :
    Prop where
  outcome : Outcome s result
  logged : Logged s.log

theorem closed_aborted {s : World T} (hs : s.log = []) (h : s.aborted = true) :
    Closed (.error .requestAborted) s := ⟨.aborted h, hs ▸ .idle⟩

theorem open_or_aborted {s : World T} (hs : s.log = []) :
    if s.aborted then Closed (.error .requestAborted) s else Open s := by
  split
  · rename_i hab
    exact closed_aborted hs hab
  · rename_i hab
    exact ⟨hs, by simpa using hab⟩

theorem wp_load {s : World T} {Q : Except JsError T → World T → Prop} (hs : Open s)
    (hq : ∀ result s', s'.log = [.loadSettled result, .loadCalled false] → Q result s') :
    (host T).wp contract (load T).run Q s := by
  have hcalled : (issue (T := T) .load s).log = [.loadCalled false] := by
    simp [issue, hs.log, hs.aborted]
  refine wp_command (c := .load) rfl (hcalled ▸ .loading) fun s1 h1 r s2 hr => ?_
  cases hr
  refine hq r _ ?_
  simp [h1.log, hcalled]

/-- A read of the cache: the value is in the log, a miss or a failure leaves
no trace. -/
theorem wp_readFresh {s : World T} {Q : Except JsError (Option T) → World T → Prop}
    (hs : Open s) (hfresh : ∀ value s', s'.log = [.freshRead value] → Q (.ok (some value)) s')
    (hmiss : ∀ s', s'.log = [] → Q (.ok none) s')
    (herror : ∀ e s', s'.log = [] → Q (.error e) s') :
    (host T).wp contract (readFresh T).run Q s := by
  refine wp_command (c := .readFresh) rfl (hs.log ▸ .idle) fun s1 h1 r s2 hr => ?_
  have hlog : s1.log = [] := h1.log.trans hs.log
  rcases r with e | _ | value
  · cases hr
    exact herror e _ hlog
  · cases hr
    exact hmiss _ hlog
  · cases hr
    refine hfresh value _ ?_
    simp [hlog]

def outline (leases : Bool) (settings : Settings) (key owner : JsString) (waitDeadline : Nat) :
    Outline (abortFlag T leases) settings (leaseStore T) key owner waitDeadline (readFresh T)
      (load T) Closed where
  idle s := s.log = []
  asking := Open
  loose := Open
  held := Open
  ready := Open
  beating := Open
  loaded result s := s.log = [.loadSettled result, .loadCalled false]
  closing := Closed
  refused := Open
  waiting := Open
  idle_inv s hs := ⟨show Logged s.log from hs ▸ .idle, trivial⟩
  idle_stable _ _ hs hr _ := hr.log.trans hs
  enter _ hs := open_or_aborted hs
  acquire s hs := by
    refine wp_command (c := .tryAcquireLease _ _ _) rfl (hs.log ▸ .idle) fun s1 h1 r s2 hr => ?_
    cases hr
    have hlog : s1.log = [] := h1.log.trans hs.log
    have hnext := open_or_aborted hlog
    rcases r with e | _ | _ <;> exact hnext
  loadLoose s hs := by
    refine wp_load hs fun result s1 h1 => ?_
    have hclosed : ∀ {r}, Outcome s1 r → Closed r s1 := fun ho => ⟨ho, h1 ▸ .loaded result⟩
    have hmem : .loadSettled result ∈ s1.log := h1 ▸ List.mem_cons_self
    cases result with
    | ok value => exact hclosed (.loaded .upstream hmem)
    | error e => exact hclosed (.loaded .upstream hmem)
  recheck s hs := by
    refine wp_readFresh hs (fun value s1 h1 => ?_) (fun s1 h1 => ?_) fun e s1 h1 => ?_
    · have hmem : .freshRead value ∈ s1.log := h1 ▸ List.mem_cons_self
      exact unlessAborted_intro (fun hab => ⟨.aborted hab, h1 ▸ .fresh value⟩)
        ⟨.fresh hmem, h1 ▸ .fresh value⟩
    · exact open_or_aborted h1
    · exact open_or_aborted h1
  beat s hs := Host.wp_now rfl ⟨hs.log, hs.aborted⟩
  loadHeld s hs := wp_load hs fun result s1 h1 => h1
  stop result s hs := by
    refine Host.wp_now rfl ⟨.loaded .upstream ?_, ?_⟩
    · simp [hs]
    · simpa [hs] using Logged.loaded result
  release result s hs := by
    refine wp_command (c := .releaseLease _ _) rfl hs.logged fun s1 h1 r s2 hr => ?_
    cases hr
    exact ⟨hs.outcome.later h1, h1.log ▸ hs.logged⟩
  poll s hs := by
    refine wp_readFresh hs (fun value s1 h1 => ?_) (fun s1 h1 => ?_) fun e s1 h1 => ?_
    · have hmem : .freshRead value ∈ s1.log := h1 ▸ List.mem_cons_self
      exact unlessAborted_intro (fun hab => ⟨.aborted hab, h1 ▸ .fresh value⟩)
        ⟨.fresh hmem, h1 ▸ .fresh value⟩
    · exact open_or_aborted h1
    · exact open_or_aborted h1
  clock s hs := by
    refine Host.wp_now rfl ?_
    split <;> exact hs
  jitter s hs := Host.wp_now rfl ⟨hs.log, hs.aborted⟩
  doze delayMs s hs := by
    split
    · rename_i hab
      exact closed_aborted hs.log hab
    · refine wp_command (c := .setTimeout delayMs) rfl (hs.log ▸ .idle) fun s1 h1 r s2 hr => ?_
      have hlog : s1.log = [] := h1.log.trans hs.log
      rcases r with e | _
      · cases e with
        | requestAborted =>
          simp only [reply] at hr
          split at hr
          · rename_i hab
            cases hr
            exact closed_aborted hlog hab
          · cases hr
        | http _ | axios _ | cacheCorruption _ | other _ _ | value => cases hr
      · cases hr
        exact hlog

theorem coordination_closed {leases : Bool} {settings : Settings} {platform : Platform}
    {cacheKey : JsString} {s : World T} (hs : s.Initial) :
    (host T).wp contract (coordinateCacheMiss (runtimeOf T leases) settings platform cacheKey
      (readFresh T) (load T)).run Closed s := by
  cases leases with
  | true =>
    refine wp_coordinateCacheMiss (abortFlag T true) rfl ?_
    split
    · rename_i hab
      exact closed_aborted hs.log hab
    · exact Host.wp_now rfl (Host.wp_now rfl ⟨outline true settings _ s.uuid _, hs.log⟩)
  | false =>
    refine wp_coordinateCacheMiss_bypassed (abortFlag T false) rfl ?_
    have hopen := open_or_aborted hs.log
    split
    · rename_i hab
      exact closed_aborted hs.log hab
    · rename_i hab
      refine wp_load ⟨hs.log, by simpa [abortFlag] using hab⟩ fun result s1 h1 => ?_
      have hclosed : ∀ {r}, Outcome s1 r → Closed r s1 := fun ho => ⟨ho, h1 ▸ .loaded result⟩
      have hmem : .loadSettled result ∈ s1.log := h1 ▸ List.mem_cons_self
      cases result with
      | ok value => exact hclosed (.loaded .bypassed hmem)
      | error e => exact hclosed (.loaded .bypassed hmem)

/-! ## Every run -/

/-- What is known of a running coordination. -/
structure Inv (s : Call T) : Prop where
  logged : Logged s.world.log
  parked : (host T).parked contract (fun result s => Outcome s result) s.prog s.world

theorem inv_start {leases : Bool} {settings : Settings} {platform : Platform}
    {cacheKey : JsString} {world : World T} (hw : world.Initial) :
    Inv (start leases settings platform cacheKey world) := by
  have hwp : (host T).wp contract (coordinateCacheMiss (runtimeOf T leases) settings platform
      cacheKey (readFresh T) (load T)).run
      (fun result s => contract.inv s ∧ Outcome s result) world :=
    Host.wp_mono (coordination_closed hw) fun _ _ h => ⟨h.logged, h.outcome⟩
  obtain ⟨hi, hp⟩ := Host.advance_sound hwp
  exact ⟨hi, hp⟩

/-- What happens around a coordination leaves its log alone. -/
theorem Inv.meanwhile {s : Call T} {world : World T} (h : Inv s)
    (hw : Meanwhile s.world world) : Inv { s with world := world } :=
  ⟨hw.log ▸ h.logged, Host.parked_rely h.parked hw (fun _ ho => ho.later hw) id⟩

theorem inv_step {s s' : Call T} {e : Event T} (h : Inv s) (hs : step s e = some s') :
    Inv s' := by
  cases e with
  | resume answer =>
    obtain ⟨⟨prog, world⟩, hr, rfl⟩ := Option.map_eq_some_iff.mp hs
    obtain ⟨hi, hp⟩ := Host.resume_sound (K := contract) h.logged h.parked hr
    exact ⟨hi, hp⟩
  | abort =>
    cases hs
    exact h.meanwhile ⟨rfl, fun _ => rfl⟩
  | setClock ms =>
    cases hs
    exact h.meanwhile ⟨rfl, id⟩
  | tick =>
    obtain ⟨hb, -, rfl⟩ := Option.map_eq_some_iff.mp hs
    exact h.meanwhile ⟨rfl, id⟩
  | renewed answer =>
    simp only [step] at hs
    split at hs
    · split at hs
      · cases hs
        exact h.meanwhile ⟨rfl, id⟩
      · cases hs
    · cases hs

def loads (log : List (LogEntry T)) : List Bool :=
  log.filterMap fun
    | .loadCalled aborted => some aborted
    | _ => none

theorem Logged.loads {log : List (LogEntry T)} (h : Logged log) :
    loads log = [] ∨ loads log = [false] := by
  cases h with
  | idle => exact .inl rfl
  | fresh value => exact .inl rfl
  | loading => exact .inr rfl
  | loaded result => exact .inr rfl

/-- What may be seen of a coordination: one load at most and none after the
abort; a value comes from the load or the cache, an error from the load or the
abort. -/
structure FailsOpen (s : Call T) : Prop where
  once : (loads s.world.log).length ≤ 1
  notAborted : ∀ aborted ∈ loads s.world.log, aborted = false
  fulfilled : ∀ value source, s.prog = .pure (.ok ⟨value, source⟩) →
    .loadSettled (.ok value) ∈ s.world.log ∨ .freshRead value ∈ s.world.log
  rejected : ∀ e, s.prog = .pure (.error e) →
    .loadSettled (.error e) ∈ s.world.log ∨ (e = .requestAborted ∧ s.world.aborted = true)

theorem Inv.failsOpen {s : Call T} (h : Inv s) : FailsOpen s := by
  have houtcome : ∀ result, s.prog = .pure result → Outcome s.world result := by
    intro result hp
    have := h.parked
    rw [hp] at this
    exact this
  refine ⟨?_, ?_, fun value source hp => ?_, fun e hp => ?_⟩
  · rcases h.logged.loads with hl | hl <;> simp [hl]
  · rcases h.logged.loads with hl | hl <;> simp [hl]
  · generalize hr : (Except.ok ⟨value, source⟩ : Except JsError (CacheMissCoordinationResult T)) = r
      at hp
    cases houtcome _ hp with
    | @loaded result source' hm =>
      cases result with
      | ok value' => cases hr; exact .inl hm
      | error e => cases hr
    | fresh hm => cases hr; exact .inr hm
    | aborted => cases hr
  · generalize hr : (Except.error e : Except JsError (CacheMissCoordinationResult T)) = r at hp
    cases houtcome _ hp with
    | @loaded result source hm =>
      cases result with
      | ok value => cases hr
      | error e' => cases hr; exact .inl hm
    | fresh hm => cases hr
    | aborted hab => cases hr; exact .inr ⟨rfl, hab⟩

/-- A coordination fails open, whatever its store, its caller, the clock and
the abort signal do. -/
theorem coordination_fails_open {leases : Bool} {settings : Settings} {platform : Platform}
    {cacheKey : JsString} {world : World T} (hw : world.Initial) {s : Call T}
    (hs : Reachable step (start leases settings platform cacheKey world) s) : FailsOpen s :=
  (hs.invariant (P := Inv) (inv_start hw) fun _ _ _ h hstep => inv_step h hstep).failsOpen

/-! ## A sample run -/

/-- The lease commands fail, the load does not. -/
def leaseless : (c : CoordinatorCommand) → Option (CoordinatorReply Unit c)
  | .tryAcquireLease _ _ _ => some (.error (.other "MaxRetriesPerRequestError" none))
  | .load => some (.ok ())
  | _ => none

def sampleWorld : World Unit where
  aborted := false
  clock := 0
  uuid := js "a"
  randoms _ := 0
  drawn := 0
  renews := true
  rawHeartbeatMs := none
  heartbeat := none
  log := []

theorem coordination_without_redis : ∃ s, run step
    (start true Settings.default .plain (js "k") sampleWorld)
      (List.replicate 3 (.resume leaseless)) = some s ∧
    s.prog = .pure (.ok ⟨(), .upstream⟩) ∧ FailsOpen s := by
  have hrun : (run step (start true Settings.default .plain (js "k") sampleWorld)
      (List.replicate 3 (.resume leaseless))).map Call.prog =
        some (.pure (.ok ⟨(), .upstream⟩)) := rfl
  obtain ⟨s, hs, hp⟩ := Option.map_eq_some_iff.mp hrun
  exact ⟨s, hs, hp, coordination_fails_open ⟨rfl, rfl⟩ ⟨_, hs⟩⟩

end NewsApi.Cache.FailOpen
