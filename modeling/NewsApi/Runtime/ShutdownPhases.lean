import NewsApi.Runtime.Shutdown

/-! # The phases of a shutdown

The calls in progress are described by frames, one for each outside call the
handler makes. Apart from them a shutdown is in one of a few phases: each thing
that has to happen once either has happened or is what one frame goes on with.
What a run has shown is determined by its phase. -/
namespace NewsApi.Runtime.Shutdown
open NewsApi.Async NewsApi.Text

/-- The outside call a program waits for. -/
inductive Frame where
  | repeated (signal : JsString)
  | starting (signal : JsString)
  | closing
  | connections
  | forcing
  | errored (error : JsString)
  | closed
  | cleaning
  | caught (exitCode : Option Nat) (error : JsString)
  | exiting (code : Nat)

/-- The program that waits for the call. -/
def Frame.waits : Frame → Handler
  | .repeated signal => .call (.onRepeat signal) fun _ => pure ()
  | .starting signal => .call (.onStart signal) fun _ => do
    command .setTimeout
    command (.assign fun v => { v with timeout := true })
    match ← command .serverClose with
    | .ok _ => return
    | .error error => finish (some error)
  | .closing => .call .serverClose fun
    | .ok _ => pure ()
    | .error error => finish (some error)
  | .connections => .call .closeAllConnections fun _ => do
    command .onForced
    startCleanup none
    command (.exit 1)
  | .forcing => .call .onForced fun _ => do
    startCleanup none
    command (.exit 1)
  | .errored error => .call (.onCloseError error) fun _ => startCleanup (some 1)
  | .closed => .call .onClosed fun _ => startCleanup (some 0)
  | .cleaning => .call .cleanup fun _ => pure ()
  | .caught exitCode error => .call (.onCleanupError error) fun _ => cleanupSettled exitCode none
  | .exiting code => .call (.exit code) fun _ => pure ()

/-! ## What each piece of code does -/

/-- The state after `startCleanup`. -/
def began (exitCode : Option Nat) (s : Process) : Process :=
  if s.vars.cleanupStarted then s
  else { s with vars.cleanupStarted := true, cleanup := .queued exitCode }

/-- The state after the last reaction, but for the exit. -/
def completed (s : Process) : Process :=
  if s.vars.timeout then
    { s with vars.cleanupCompleted := true, vars.timeout := false, armed := false }
  else { s with vars.cleanupCompleted := true }

variable {server : ShutdownServer} {s : Process} {calls : List Handler}

theorem enter_startCleanup (exitCode : Option Nat) :
    Thread.enter host (startCleanup exitCode) ⟨s, calls⟩ = ⟨began exitCode s, calls⟩ := by
  obtain ⟨⟨_, _, cleanupStarted, _, _, _⟩, _, _, _, _, _⟩ := s
  cases cleanupStarted <;> rfl

theorem enter_forceExitEnd :
    Thread.enter host (do startCleanup none; command (.exit 1)) ⟨s, calls⟩ =
      ⟨(began none s).record (.exit 1), (Frame.exiting 1).waits :: calls⟩ := by
  obtain ⟨⟨_, _, cleanupStarted, _, _, _⟩, _, _, _, _, _⟩ := s
  cases cleanupStarted <;> rfl

def finishFrame : Option JsString → Frame
  | some error => .errored error
  | none => .closed

theorem enter_finish (error : Option JsString) :
    Thread.enter host (finish error) ⟨s, calls⟩ =
      if s.vars.finalized then ⟨s, calls⟩
      else ⟨{ s with vars.finalized := true }, (finishFrame error).waits :: calls⟩ := by
  obtain ⟨⟨_, finalized, _, _, _, _⟩, _, _, _, _, _⟩ := s
  cases finalized <;> cases error <;> rfl

theorem enter_shutdown (signal : JsString) :
    Thread.enter host (shutdown signal) ⟨s, calls⟩ =
      if s.vars.started then ⟨s, (Frame.repeated signal).waits :: calls⟩
      else ⟨{ s with vars.started := true, draining := true },
        (Frame.starting signal).waits :: calls⟩ := by
  obtain ⟨⟨started, _, _, _, _, _⟩, _, _, _, _, _⟩ := s
  cases started <;> rfl

def exitFrame (server : ShutdownServer) : Frame :=
  if server.closeAllConnections then .connections else .forcing

/-- The state in which a forced exit calls out first. -/
def forcedBy (server : ShutdownServer) (s : Process) : Process :=
  let s := { s with vars.forced := true, vars.finalized := true }
  let s := if s.aborted then s else { s with aborted := true }.record .abortShutdown
  if server.closeAllConnections then s.record .closeAllConnections else s

theorem enter_forceExit (hforced : s.vars.forced = false)
    (hcompleted : s.vars.cleanupCompleted = false) :
    Thread.enter host (forceExit server) ⟨s, calls⟩ =
      ⟨forcedBy server s, (exitFrame server).waits :: calls⟩ := by
  obtain ⟨⟨_, _, _, cleanupCompleted, forced, _⟩, _, aborted, _, _, _⟩ := s
  cases hforced
  cases hcompleted
  obtain ⟨_ | _⟩ := server <;> cases aborted <;> rfl

/-- The exit of the last reaction. -/
def reactionExit (exitCode : Option Nat) (s : Process) : Option Nat :=
  if s.vars.forced then none else exitCode

theorem enter_cleanupSettled (exitCode : Option Nat) :
    Thread.enter host (cleanupSettled exitCode none) ⟨s, calls⟩ =
      match reactionExit exitCode s with
      | some code => ⟨(completed s).record (.exit code), (Frame.exiting code).waits :: calls⟩
      | none => ⟨completed s, calls⟩ := by
  obtain ⟨⟨_, _, _, _, forced, timeout⟩, _, _, _, _, _⟩ := s
  cases exitCode <;> cases forced <;> cases timeout <;> rfl

/-! ## What a run shows -/

def exitCodes (log : List Entry) : List Nat :=
  log.filterMap fun
    | .exit code => some code
    | _ => none

/-- What `server.close` reported first. -/
def firstReport : List Entry → Option (Option JsString)
  | [] => none
  | .reported error :: log => (firstReport log).or (some error)
  | _ :: log => firstReport log

/-- What was there before an entry. -/
def Justified (server : ShutdownServer) (before : List Entry) : Entry → Prop
  | .exit code =>
    (code = 0 → firstReport before = some none ∧ ∃ error, .settled error ∈ before) ∧
    (.deadline ∈ before → code = 1 ∧ .abortShutdown ∈ before ∧
      (server.closeAllConnections = true → .closeAllConnections ∈ before))
  | .deadline => exitCodes before = [] ∧ ∀ error, .settled error ∉ before
  | _ => True

def Orderly (server : ShutdownServer) : List Entry → Prop
  | [] => True
  | entry :: before => Justified server before entry ∧ Orderly server before

/-! ## Phases

What a shutdown comes to, apart from the calls in progress. -/

def exitCodeOf (failed : Bool) : Nat := if failed then 1 else 0

def Cleanup.ran : Cleanup → Bool
  | .idle | .queued _ => false
  | .running _ | .settled _ => true

def Cleanup.isSettled : Cleanup → Bool
  | .settled _ => true
  | _ => false

/-- `failed` is whether `server.close` reported an error first. A shutdown whose
deadline fired is `forcing` until it exits; then a reaction may still be pending. -/
inductive Phase where
  | idle
  | starting
  | serving
  | reporting (failed : Bool)
  | queued (failed : Bool)
  | running (failed : Bool)
  | reacting (failed : Bool)
  | exited (failed : Bool)
  | forcing (cleanup : Cleanup)
  | killed (cleanup : Cleanup) (pending : Bool)

/-- What an outside call goes on with that has to happen once. -/
inductive Duty where
  | close
  | clean (failed : Bool)
  | react (exitCode : Option Nat)
  | exit
  deriving DecidableEq

def Frame.duty : Frame → Option Duty
  | .starting _ => some .close
  | .errored _ => some (.clean true)
  | .closed => some (.clean false)
  | .caught exitCode _ => some (.react exitCode)
  | .connections | .forcing => some .exit
  | .repeated _ | .closing | .cleaning | .exiting _ => none

namespace Phase

def forced : Phase → Bool
  | .forcing _ | .killed _ _ => true
  | _ => false

def vars : Phase → Vars
  | .idle => ⟨false, false, false, false, false, false⟩
  | .starting => ⟨true, false, false, false, false, false⟩
  | .serving => ⟨true, false, false, false, false, true⟩
  | .reporting _ => ⟨true, true, false, false, false, true⟩
  | .queued _ | .running _ | .reacting _ => ⟨true, true, true, false, false, true⟩
  | .exited _ => ⟨true, true, true, true, false, false⟩
  | .forcing cleanup => ⟨true, true, cleanup != .idle, false, true, true⟩
  | .killed cleanup pending =>
    let completed := cleanup.isSettled && !pending
    ⟨true, true, true, completed, true, !completed⟩

def armed : Phase → Bool
  | .serving | .reporting _ | .queued _ | .running _ | .reacting _ => true
  | _ => false

def cleanup : Phase → Cleanup
  | .idle | .starting | .serving | .reporting _ => .idle
  | .queued failed => .queued (some (exitCodeOf failed))
  | .running failed => .running (some (exitCodeOf failed))
  | .reacting failed | .exited failed => .settled (some (exitCodeOf failed))
  | .forcing cleanup | .killed cleanup _ => cleanup

def duty : Phase → Option Duty
  | .starting => some .close
  | .reporting failed => some (.clean failed)
  | .reacting failed => some (.react (some (exitCodeOf failed)))
  | .forcing _ => some .exit
  | .killed (.settled exitCode) true => some (.react exitCode)
  | _ => none

def exits : Phase → List Nat
  | .exited failed => [exitCodeOf failed]
  | .killed _ _ => [1]
  | _ => []

/-- The first report, as far as it matters. -/
def report : Phase → Option (Option Bool)
  | .idle | .starting | .serving => some none
  | .reporting failed | .queued failed | .running failed | .reacting failed | .exited failed =>
    some (some failed)
  | .forcing _ | .killed _ _ => none

def closed : Phase → Bool
  | .idle | .starting => false
  | _ => true

def Ok : Phase → Prop
  | .forcing cleanup => cleanup.isSettled = false
  | .killed cleanup pending =>
    cleanup ≠ .idle ∧ (pending = true → cleanup.isSettled = true)
  | _ => True

end Phase

/-- What is shown when a phase is reached. -/
structure Shows (server : ShutdownServer) (phase : Phase) (log : List Entry) : Prop where
  close : log.count .serverClose = phase.closed.toNat
  cleaned : log.count .cleanup = phase.cleanup.ran.toNat
  settled : (∃ error, .settled error ∈ log) ↔ phase.cleanup.isSettled = true
  deadline : .deadline ∈ log ↔ phase.forced = true
  connections : phase.forced = true → .abortShutdown ∈ log ∧
    (server.closeAllConnections = true → .closeAllConnections ∈ log)
  exits : exitCodes log = phase.exits
  report : ∀ r, phase.report = some r → (firstReport log).map Option.isSome = r
  orderly : Orderly server log

/-! ## Entries -/

section
variable {phase phase' : Phase} {log : List Entry} {failed pending : Bool} {cleanup : Cleanup}
  {exitCode : Option Nat}

theorem Shows.same (h : Shows server phase log) (hclosed : phase'.closed = phase.closed)
    (hran : phase'.cleanup.ran = phase.cleanup.ran)
    (hsettled : phase'.cleanup.isSettled = phase.cleanup.isSettled)
    (hforced : phase'.forced = phase.forced) (hexits : phase'.exits = phase.exits)
    (hreport : phase'.report = phase.report) : Shows server phase' log := by
  refine ⟨?_, ?_, ?_, ?_, ?_, ?_, ?_, h.orderly⟩
  · rw [hclosed, h.close]
  · rw [hran, h.cleaned]
  · rw [hsettled, h.settled]
  · rw [hforced, h.deadline]
  · rw [hforced]; exact h.connections
  · rw [hexits, h.exits]
  · rw [hreport]; exact h.report

/-- A report after the first one changes nothing. -/
theorem Shows.reported (h : Shows server phase log) (error : Option JsString)
    (hphase : phase.report ≠ some none) : Shows server phase (.reported error :: log) := by
  obtain ⟨hclose, hcleaned, hsettled, hdeadline, hconnections, hexits, hreport, horderly⟩ := h
  refine ⟨by simpa, by simpa, by simpa, by simpa, by simpa, by simpa [exitCodes], fun r hr => ?_,
    trivial, horderly⟩
  have := hreport r hr
  cases hfirst : firstReport log with
  | none => simp_all
  | some e => simpa [firstReport, hfirst] using this

theorem Shows.first (h : Shows server .serving log) (error : Option JsString) :
    Shows server (.reporting error.isSome) (.reported error :: log) := by
  obtain ⟨hclose, hcleaned, hsettled, hdeadline, hconnections, hexits, hreport, horderly⟩ := h
  refine ⟨by simpa, by simpa, by simpa, by simpa, by simpa, by simpa [exitCodes], ?_, trivial, horderly⟩
  have := hreport none rfl
  rintro _ ⟨⟩
  simp_all [firstReport]

theorem Shows.closes (h : Shows server .starting log) :
    Shows server .serving (.serverClose :: log) := by
  obtain ⟨hclose, hcleaned, hsettled, hdeadline, hconnections, hexits, hreport, horderly⟩ := h
  refine ⟨?_, by simpa, by simpa, by simpa, by simpa, by simpa [exitCodes], hreport, trivial, horderly⟩
  rw [List.count_cons_self, hclose]
  rfl

/-- `cleanup` is called. -/
theorem Shows.runs (h : Shows server phase log) (hclosed : phase'.closed = phase.closed)
    (hbefore : phase.cleanup = .queued exitCode) (hafter : phase'.cleanup = .running exitCode)
    (hforced : phase'.forced = phase.forced) (hexits : phase'.exits = phase.exits)
    (hreport : phase'.report = phase.report) : Shows server phase' (.cleanup :: log) := by
  have hsettled := h.settled
  have hran := h.cleaned
  rw [hbefore] at hsettled hran
  refine ⟨?_, ?_, ?_, ?_, ?_, ?_, ?_, trivial, h.orderly⟩
  · rw [hclosed, ← h.close]; simp
  · rw [hafter, List.count_cons_self, hran]; rfl
  · rw [hafter, show Cleanup.isSettled (.running exitCode) = Cleanup.isSettled (.queued exitCode) from rfl,
      ← hsettled]
    simp
  · rw [hforced, ← h.deadline]; simp
  · rw [hforced]; simpa using h.connections
  · rw [hexits, ← h.exits]; rfl
  · rw [hreport]; exact h.report

/-- `cleanup` has settled. -/
theorem Shows.settles (h : Shows server phase log) (error : Option JsString)
    (hclosed : phase'.closed = phase.closed) (hbefore : phase.cleanup = .running exitCode)
    (hafter : phase'.cleanup = .settled exitCode) (hforced : phase'.forced = phase.forced)
    (hexits : phase'.exits = phase.exits) (hreport : phase'.report = phase.report) :
    Shows server phase' (.settled error :: log) := by
  have hran := h.cleaned
  rw [hbefore] at hran
  refine ⟨?_, ?_, ?_, ?_, ?_, ?_, ?_, trivial, h.orderly⟩
  · rw [hclosed, ← h.close]; simp
  · rw [hafter, show Cleanup.ran (.settled exitCode) = Cleanup.ran (.running exitCode) from rfl, ← hran]
    simp
  · rw [hafter]; exact iff_of_true ⟨error, List.mem_cons_self⟩ rfl
  · rw [hforced, ← h.deadline]; simp
  · rw [hforced]; simpa using h.connections
  · rw [hexits, ← h.exits]; rfl
  · rw [hreport]; exact h.report

/-- The exit of an orderly shutdown. -/
theorem Shows.exits_cleaned (h : Shows server (.reacting failed) log) :
    Shows server (.exited failed) (.exit (exitCodeOf failed) :: log) := by
  obtain ⟨hclose, hcleaned, hsettled, hdeadline, hconnections, hexits, hreport, horderly⟩ := h
  refine ⟨by simpa, by simpa, by simpa, by simpa, by simpa, ?_, hreport, ⟨fun hzero => ?_, ?_⟩,
    horderly⟩
  · rw [show exitCodes (.exit (exitCodeOf failed) :: log) = exitCodeOf failed :: exitCodes log from rfl,
      hexits]
    rfl
  · have hfirst := hreport (some failed) rfl
    cases failed with
    | true => cases hzero
    | false =>
      obtain ⟨r, hr, he⟩ := Option.map_eq_some_iff.mp hfirst
      rw [Option.isSome_eq_false_iff, Option.isNone_iff_eq_none] at he
      exact ⟨he ▸ hr, hsettled.mpr rfl⟩
  · exact fun hd => absurd (hdeadline.mp hd) Bool.false_ne_true

/-- The exit of a forced shutdown. -/
theorem Shows.exits_forced (h : Shows server (.forcing cleanup) log) {cleanup' : Cleanup}
    (hran : cleanup'.ran = cleanup.ran) (hsettled' : cleanup'.isSettled = cleanup.isSettled) :
    Shows server (.killed cleanup' false) (.exit 1 :: log) := by
  obtain ⟨hclose, hcleaned, hsettled, hdeadline, hconnections, hexits, hreport, horderly⟩ := h
  refine ⟨?_, ?_, ?_, ?_, fun _ => ?_, ?_, nofun, ⟨nofun, fun _ => ⟨rfl, hconnections rfl⟩⟩,
    horderly⟩
  · simpa [Phase.closed] using hclose
  · rw [show (Phase.killed cleanup' false).cleanup = cleanup' from rfl, hran,
      show cleanup.ran.toNat = _ from hcleaned.symm]
    simp
  · rw [show (Phase.killed cleanup' false).cleanup = cleanup' from rfl, hsettled',
      show cleanup.isSettled = true ↔ _ from hsettled.symm]
    simp
  · rw [show (Phase.killed cleanup' false).forced = (Phase.forcing cleanup).forced from rfl,
      ← hdeadline]
    simp
  · simpa using hconnections rfl
  · rw [show exitCodes (.exit 1 :: log) = 1 :: exitCodes log from rfl, hexits]
    rfl

/-- What a forced exit shows before it calls out. -/
def forcedLog (server : ShutdownServer) (log : List Entry) : List Entry :=
  if server.closeAllConnections then .closeAllConnections :: .abortShutdown :: log
  else .abortShutdown :: log

theorem Shows.fires (h : Shows server phase log) (hclosed : phase.closed = true)
    (hexits : phase.exits = []) (hsettled : phase.cleanup.isSettled = false) :
    Shows server (.forcing phase.cleanup) (forcedLog server (.deadline :: log)) := by
  have hnone : ∀ error, .settled error ∉ log := fun error he =>
    Bool.false_ne_true (hsettled.symm.trans (h.settled.mp ⟨error, he⟩))
  have hclose := h.close
  rw [hclosed] at hclose
  have horderly : Orderly server (forcedLog server (.deadline :: log)) := by
    have hdeadline : Orderly server (.deadline :: log) :=
      ⟨⟨h.exits.trans hexits, hnone⟩, h.orderly⟩
    unfold forcedLog
    split
    · exact ⟨trivial, trivial, hdeadline⟩
    · exact ⟨trivial, hdeadline⟩
  refine ⟨?_, ?_, ?_, ?_, fun _ => ?_, ?_, nofun, horderly⟩ <;> unfold forcedLog
  · split <;> simpa [Phase.closed] using hclose
  · rw [show (Phase.forcing phase.cleanup).cleanup = phase.cleanup from rfl, ← h.cleaned]
    split <;> simp
  · rw [show (Phase.forcing phase.cleanup).cleanup = phase.cleanup from rfl, ← h.settled]
    split <;> simp
  · split <;> simp [Phase.forced]
  · split <;> simp_all
  · rw [show (Phase.forcing phase.cleanup).exits = [] from rfl, ← hexits, ← h.exits]
    split <;> rfl

end

end NewsApi.Runtime.Shutdown
