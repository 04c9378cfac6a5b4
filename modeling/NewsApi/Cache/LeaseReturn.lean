import NewsApi.Async.Run
import NewsApi.Cache.CoordinatorCommands
import NewsApi.Cache.CoordinatorOutline

/-! # Giving a lease back

One coordination over any store with lease support, any reads and loads, and an
abort at any moment. A log records the lease commands that mattered: which
acquire was answered with a grant and whether the signal was aborted by then,
when the heartbeat ran, and which lease was released. -/
namespace NewsApi.Cache.LeaseReturn
open NewsApi.Async NewsApi.Text NewsApi.Errors NewsApi.Config

inductive LogEntry where
  /-- an acquire answered `true`; whether the signal was aborted when it was -/
  | granted (key owner : JsString) (aborted : Bool)
  | heartbeatStarted
  | heartbeatStopped
  | releaseCalled (key owner : JsString)
  deriving DecidableEq

structure Trace where
  aborted : Bool
  clock : Nat
  uuid : JsString
  randoms : Nat → Rat
  drawn : Nat
  /-- newest first -/
  log : List LogEntry

variable {T : Type}

def now : (c : CoordinatorCommand) → Trace → Option (CoordinatorReply T c × Trace)
  | .aborted, s => some (s.aborted, s)
  | .dateNow, s => some (s.clock, s)
  | .random, s => some (s.randoms s.drawn, { s with drawn := s.drawn + 1 })
  | .randomUUID, s => some (s.uuid, s)
  | .startHeartbeat _ _ _, s => some ((), { s with log := .heartbeatStarted :: s.log })
  | .stopHeartbeat, s => some ((), { s with log := .heartbeatStopped :: s.log })
  | .setTimeout _, _ | .tryAcquireLease _ _ _, _ | .releaseLease _ _, _ | .readFresh, _
  | .load, _ => none

def issue : CoordinatorCommand → Trace → Trace
  | .releaseLease key owner, s => { s with log := .releaseCalled key owner :: s.log }
  | _, s => s

/-- Every answer is possible. -/
def reply : (c : CoordinatorCommand) → CoordinatorReply T c → Trace → Option Trace
  | .tryAcquireLease key owner _, .ok true, s =>
    some { s with log := .granted key owner s.aborted :: s.log }
  | _, _, s => some s

def traceHost (T : Type) : Host CoordinatorCommand (CoordinatorReply T) Trace where
  now := now
  issue := issue
  reply := reply

/-- The world may abort the signal and let time pass. -/
def traceContract : Contract Trace where
  inv _ := True
  rely s s' := s'.log = s.log
  atLoop _ := True
  rely_refl _ := rfl
  rely_trans h h' := h'.trans h

/-! ## The outline -/

/-- The log of a coordination that has ended. -/
inductive Complete (key owner : JsString) : List LogEntry → Prop
  | notGranted : Complete key owner []
  | abandoned : Complete key owner [.granted key owner true]
  | fresh : Complete key owner [.releaseCalled key owner, .granted key owner false]
  | loaded : Complete key owner [.releaseCalled key owner, .heartbeatStopped, .heartbeatStarted,
      .granted key owner false]

variable {log : List LogEntry} {s : Trace}

theorem wp_command {c : CoordinatorCommand} {Q : CoordinatorReply T c → Trace → Prop}
    (hn : (traceHost T).now c s = none) (hs : (issue c s).log = log)
    (hq : ∀ s', s'.log = log → ∀ r s'', reply c r s' = some s'' → Q r s'') :
    (traceHost T).wp traceContract (command T c) Q s :=
  Host.wp_wait hn trivial fun s1 h1 _ r s2 h2 => hq s1 (h1.trans hs) r s2 h2

def abortFlag (T : Type) : AbortFlag (traceHost T) traceContract (coordinatorRuntime T) where
  aborted := Trace.aborted
  wp_aborted _ _ hq := Host.wp_now rfl hq

/-- `Q` holds of every outcome once the log is complete. -/
def Returned (key owner : JsString) (_ : Except JsError (CacheMissCoordinationResult T))
    (s : Trace) : Prop :=
  Complete key owner s.log

theorem returned_of_log {key owner : JsString} {r : Except JsError (CacheMissCoordinationResult T)}
    (hs : s.log = log) (hl : Complete key owner log) : Returned key owner r s := by
  rw [← hs] at hl
  exact hl

def outline (settings : Settings) (key owner : JsString) (waitDeadline : Nat) :
    Outline (abortFlag T) settings (leaseStore T) key owner waitDeadline (readFresh T) (load T)
      (Returned key owner) where
  idle s := s.log = []
  asking s := s.log = []
  loose s := s.log = []
  held s := s.log = [.granted key owner false]
  ready s := s.log = [.granted key owner false]
  beating s := s.log = [.heartbeatStarted, .granted key owner false]
  loaded _ s := s.log = [.heartbeatStarted, .granted key owner false]
  closing _ s := s.log = [.granted key owner false] ∨
    s.log = [.heartbeatStopped, .heartbeatStarted, .granted key owner false]
  refused s := s.log = []
  waiting s := s.log = []
  idle_inv _ _ := ⟨trivial, trivial⟩
  idle_stable _ _ hs hr _ := hr.trans hs
  enter s hs := by
    split
    · exact returned_of_log hs .notGranted
    · exact hs
  acquire s hs := by
    refine wp_command rfl hs fun s1 h1 r s2 hr => ?_
    unfold unlessAborted
    rcases r with e | _ | _
    · cases hr
      split
      · exact returned_of_log h1 .notGranted
      · exact h1
    · cases hr
      split
      · exact returned_of_log h1 .notGranted
      · exact h1
    · -- granted: the log says whether the signal had been aborted
      cases hr
      split
      · rename_i hab
        have hend : Complete key owner [.granted key owner true] := .abandoned
        refine returned_of_log ?_ hend
        simpa [h1, abortFlag] using hab
      · rename_i hab
        simpa [h1, abortFlag] using hab
  loadLoose s hs := by
    refine wp_command rfl hs fun s1 h1 r s2 hr => ?_
    cases hr
    rcases r with e | value <;> exact returned_of_log h1 .notGranted
  recheck s hs := by
    refine wp_command rfl hs fun s1 h1 r s2 hr => ?_
    cases hr
    unfold unlessAborted
    split
    · exact .inl h1
    · rcases r with e | _ | cached
      · exact h1
      · exact h1
      · exact .inl h1
  beat s hs := by
    refine Host.wp_now rfl ?_
    simp [hs]
  loadHeld s hs := by
    refine wp_command rfl hs fun s1 h1 r s2 hr => ?_
    cases hr
    exact h1
  stop r s hs := by
    refine Host.wp_now rfl ?_
    exact .inr (by simp [hs])
  release r s hs := by
    refine wp_command rfl rfl fun s1 h1 r s2 hr => ?_
    cases hr
    refine returned_of_log h1 ?_
    rcases hs with hs | hs <;> simp only [issue, hs]
    · exact .fresh
    · exact .loaded
  poll s hs := by
    refine wp_command rfl hs fun s1 h1 r s2 hr => ?_
    cases hr
    unfold unlessAborted
    split
    · exact returned_of_log h1 .notGranted
    · rcases r with e | _ | cached
      · exact h1
      · exact h1
      · exact returned_of_log h1 .notGranted
  clock s hs := by
    refine Host.wp_now rfl ?_
    split <;> exact hs
  jitter s hs := Host.wp_now rfl hs
  doze delayMs s hs := by
    split
    · exact returned_of_log hs .notGranted
    · refine wp_command rfl hs fun s1 h1 r s2 hr => ?_
      cases hr
      rcases r with e | _
      · exact returned_of_log h1 .notGranted
      · exact h1

/-! ## Runs -/

structure Coordination (T : Type) where
  trace : Trace
  prog : Prog CoordinatorCommand (CoordinatorReply T)
    (Except JsError (CacheMissCoordinationResult T))

inductive Event (T : Type) where
  | resume (answer : (c : CoordinatorCommand) → Option (CoordinatorReply T c))
  | abort
  | elapse (ms : Nat)

/-- Before the first command. -/
def Trace.start (aborted : Bool) (clock : Nat) (uuid : JsString) (randoms : Nat → Rat) : Trace where
  aborted := aborted
  clock := clock
  uuid := uuid
  randoms := randoms
  drawn := 0
  log := []

/-- `coordinateCacheMiss` has been called and has run to its first await. -/
def start (T : Type) (settings : Settings) (platform : Platform) (cacheKey : JsString)
    (trace : Trace) : Coordination T :=
  let (prog, trace) := (traceHost T).advance (coordination T settings platform cacheKey) trace
  { trace := trace, prog := prog }

def step (s : Coordination T) : Event T → Option (Coordination T)
  | .resume answer => ((traceHost T).resume answer s.prog s.trace).map fun (prog, trace) =>
      { trace := trace, prog := prog }
  | .abort => some { s with trace.aborted := true }
  | .elapse ms => some { s with trace.clock := s.trace.clock + ms }

/-- Some acquire was answered with a grant, for this lease. -/
def Granted (key owner : JsString) (log : List LogEntry) : Prop :=
  ∃ aborted, .granted key owner aborted ∈ log

def releases (log : List LogEntry) : List (JsString × JsString) :=
  log.filterMap fun
    | .releaseCalled key owner => some (key, owner)
    | _ => none

/-- The heartbeat is on after what the log records. -/
def beating : List LogEntry → Bool
  | [] => false
  | .heartbeatStarted :: _ => true
  | .heartbeatStopped :: _ => false
  | _ :: older => beating older

/-- Every granted lease was released, exactly once and with the heartbeat off;
nothing else was released. -/
structure GivenBack (log : List LogEntry) : Prop where
  released : ∀ key owner, Granted key owner log → releases log = [(key, owner)]
  stopped : ∀ key owner older, .releaseCalled key owner :: older <:+ log → beating older = false
  onlyGranted : (∀ key owner, ¬Granted key owner log) → releases log = []

theorem coordination_complete {settings : Settings} {platform : Platform} {cacheKey : JsString}
    {aborted : Bool} {clock : Nat} {uuid : JsString} {randoms : Nat → Rat} :
    (traceHost T).wp traceContract (coordination T settings platform cacheKey)
      (fun _ s => Complete (leaseKey platform cacheKey) uuid s.log)
      (Trace.start aborted clock uuid randoms) := by
  refine wp_coordinateCacheMiss (abortFlag T) rfl ?_
  split
  · exact .notGranted
  · exact Host.wp_now rfl (Host.wp_now rfl ⟨outline settings _ uuid _, rfl⟩)

/-- What is known of a running coordination. -/
def Inv (key owner : JsString) (s : Coordination T) : Prop :=
  (traceHost T).parked traceContract (fun _ s => Complete key owner s.log) s.prog s.trace

theorem inv_start {settings : Settings} {platform : Platform} {cacheKey : JsString}
    {aborted : Bool} {clock : Nat} {uuid : JsString} {randoms : Nat → Rat} :
    Inv (leaseKey platform cacheKey) uuid
      (start T settings platform cacheKey (Trace.start aborted clock uuid randoms)) := by
  have hw : (traceHost T).wp traceContract (coordination T settings platform cacheKey)
      (fun _ s => traceContract.inv s ∧ Complete (leaseKey platform cacheKey) uuid s.log)
      (Trace.start aborted clock uuid randoms) :=
    Host.wp_mono coordination_complete fun _ _ h => ⟨trivial, h⟩
  exact (Host.advance_sound hw).2

theorem inv_step {key owner : JsString} {s s' : Coordination T} {e : Event T}
    (h : Inv key owner s) (hs : step s e = some s') : Inv key owner s' := by
  cases e with
  | resume answer =>
    obtain ⟨⟨prog, trace⟩, hr, rfl⟩ := Option.map_eq_some_iff.mp hs
    exact (Host.resume_sound trivial h hr).2
  | abort =>
    cases hs
    exact Host.parked_rely h rfl (fun _ hc => hc) fun hl => hl
  | elapse ms =>
    cases hs
    exact Host.parked_rely h rfl (fun _ hc => hc) fun hl => hl

theorem mem_releases {key owner : JsString} {log : List LogEntry}
    (h : .releaseCalled key owner ∈ log) : (key, owner) ∈ releases log :=
  List.mem_filterMap.mpr ⟨_, h, rfl⟩

theorem givenBack_of_released {key owner : JsString} {older : List LogEntry}
    (hgrant : .granted key owner false ∈ older)
    (honly : ∀ k o b, .granted k o b ∈ older → k = key ∧ o = owner ∧ b = false)
    (hnone : releases older = []) (hoff : beating older = false) :
    GivenBack (.releaseCalled key owner :: older) := by
  refine ⟨?_, ?_, ?_⟩
  · rintro k o ⟨b, hm⟩
    obtain ⟨rfl, rfl, -⟩ := honly k o b (by simpa using hm)
    simpa [releases] using hnone
  · intro k o older' hs
    rcases List.suffix_cons_iff.mp hs with heq | hs
    · rw [(List.cons.inj heq).2]
      exact hoff
    · have := mem_releases (hs.subset List.mem_cons_self)
      rw [hnone] at this
      exact absurd this List.not_mem_nil
  · intro hn
    exact absurd ⟨false, List.mem_cons_of_mem _ hgrant⟩ (hn key owner)

theorem Complete.givenBack_iff {key owner : JsString} {log : List LogEntry}
    (h : Complete key owner log) :
    GivenBack log ↔ ∀ key owner, .granted key owner true ∉ log := by
  cases h with
  | notGranted =>
    refine ⟨fun _ _ _ => List.not_mem_nil, fun _ => ⟨?_, ?_, fun _ => rfl⟩⟩
    · rintro k o ⟨_, hm⟩
      exact absurd hm List.not_mem_nil
    · intro k o older hs
      exact absurd (List.suffix_nil.mp hs) (List.cons_ne_nil _ _)
  | abandoned =>
    refine ⟨fun hg => ?_, fun hn => absurd List.mem_cons_self (hn key owner)⟩
    have := hg.released key owner ⟨true, List.mem_cons_self⟩
    exact nomatch this
  | fresh =>
    refine ⟨fun _ _ _ => by simp, fun _ => ?_⟩
    exact givenBack_of_released (by simp) (by simp) rfl rfl
  | loaded =>
    refine ⟨fun _ _ _ => by simp, fun _ => ?_⟩
    exact givenBack_of_released (by simp) (by simp) rfl rfl

/-- When a coordination has returned, every lease it was granted has been given
back, unless the signal was already aborted when the grant arrived. -/
theorem lease_given_back {settings : Settings} {platform : Platform} {cacheKey : JsString}
    {aborted : Bool} {clock : Nat} {uuid : JsString} {randoms : Nat → Rat} {s : Coordination T}
    {result : Except JsError (CacheMissCoordinationResult T)}
    (hs : Reachable step (start T settings platform cacheKey
      (Trace.start aborted clock uuid randoms)) s)
    (hend : s.prog = .pure result) :
    GivenBack s.trace.log ↔ ∀ key owner, .granted key owner true ∉ s.trace.log := by
  have hinv := hs.invariant (P := Inv (leaseKey platform cacheKey) uuid) inv_start
    fun _ _ _ h hstep => inv_step h hstep
  unfold Inv at hinv
  rw [hend] at hinv
  exact Complete.givenBack_iff hinv

/-! ## Sample runs -/

/-- Every command succeeds: the lease is granted, the cache has nothing. -/
def obliging : (c : CoordinatorCommand) → Option (CoordinatorReply Unit c)
  | .tryAcquireLease _ _ _ => some (.ok true)
  | .releaseLease _ _ => some (.ok ())
  | .readFresh => some (.ok none)
  | .load => some (.ok ())
  | _ => none

def sampleStart : Coordination Unit :=
  start Unit Settings.default .plain (js "k") (Trace.start false 0 (js "a") fun _ => 0)

/-- Load under the lease and return. -/
def uncontended : List (Event Unit) := List.replicate 5 (.resume obliging)

/-- The signal aborts while the acquire is under way, and then it is granted. -/
def abortedGrant : List (Event Unit) := [.resume obliging, .abort, .resume obliging]

theorem lease_given_back_uncontended :
    ∃ s, run step sampleStart uncontended = some s ∧ GivenBack s.trace.log := by
  have hrun : (run step sampleStart uncontended).map (fun s => (s.trace.log, s.prog)) =
      some ([.releaseCalled (leaseKey .plain (js "k")) (js "a"), .heartbeatStopped,
        .heartbeatStarted, .granted (leaseKey .plain (js "k")) (js "a") false],
        .pure (.ok ⟨(), .upstream⟩)) := rfl
  obtain ⟨s, hs, hl⟩ := Option.map_eq_some_iff.mp hrun
  obtain ⟨hlog, hprog⟩ := Prod.mk.inj hl
  refine ⟨s, hs, (lease_given_back ⟨_, hs⟩ hprog).mpr fun k o => ?_⟩
  rw [hlog]
  simp

/-- The granted lease is never released. -/
theorem lease_lost_to_abort :
    ∃ s e, run step sampleStart abortedGrant = some s ∧ s.prog = .pure (.error e) ∧
      ¬GivenBack s.trace.log := by
  have hrun : (run step sampleStart abortedGrant).map (fun s => (s.trace.log, s.prog)) =
      some ([.granted (leaseKey .plain (js "k")) (js "a") true],
        .pure (.error .requestAborted)) := rfl
  obtain ⟨s, hs, hl⟩ := Option.map_eq_some_iff.mp hrun
  obtain ⟨hlog, hprog⟩ := Prod.mk.inj hl
  refine ⟨s, .requestAborted, hs, hprog, fun hg => ?_⟩
  rw [hlog] at hg
  exact nomatch hg.released _ _ ⟨true, List.mem_cons_self⟩

end NewsApi.Cache.LeaseReturn
