import NewsApi.Async.CallStack
import NewsApi.Async.Run
import NewsApi.Text.JsString

/-! # The shutdown handler

One process, one handler. Signals, reports of `server.close` and returns of
outside calls come in any order, also within an outside call; the deadline
timer and the promise reactions wait until no call is in progress. A hook that
is not given is one that does nothing. -/
namespace NewsApi.Runtime.Shutdown
open NewsApi.Async NewsApi.Text

structure ShutdownServer where
  /-- whether the server has this optional method -/
  closeAllConnections : Bool

/-- The variables the handler closes over; `timeout` is whether it is set. -/
structure Vars where
  started : Bool
  finalized : Bool
  cleanupStarted : Bool
  cleanupCompleted : Bool
  forced : Bool
  timeout : Bool
  deriving DecidableEq

/-- What the handler asks of its process. The second group calls out. -/
inductive Action where
  | vars
  | assign (update : Vars → Vars)
  | beginDraining
  | abortShutdown
  | setTimeout
  | clearTimeout
  /-- `Promise.resolve().then(cleanup).catch(…).finally(…)` -/
  | chain (exitCode : Option Nat)
  | serverClose
  | closeAllConnections
  | cleanup
  | exit (code : Nat)
  | onStart (signal : JsString)
  | onRepeat (signal : JsString)
  | onForced
  | onCloseError (error : JsString)
  | onClosed
  | onCleanupError (error : JsString)

/-- `server.close` may throw; an error is its message. -/
abbrev Reply : Action → Type
  | .vars => Vars
  | .serverClose => Except JsString Unit
  | _ => Unit

abbrev Handler : Type 1 := Prog Action Reply Unit

def command (a : Action) : Prog Action Reply (Reply a) := Prog.command a

/-! ## The handler -/

def startCleanup (exitCode : Option Nat) : Handler := do
  if (← command .vars).cleanupStarted then
    return
  command (.assign fun v => { v with cleanupStarted := true })
  command (.chain exitCode)

def forceExit (server : ShutdownServer) : Handler := do
  let v ← command .vars
  if v.forced || v.cleanupCompleted then
    return
  command (.assign fun v => { v with forced := true })
  command (.assign fun v => { v with finalized := true })
  command .abortShutdown
  if server.closeAllConnections then
    command .closeAllConnections
  command .onForced
  startCleanup none
  command (.exit 1)

def finish (error : Option JsString) : Handler := do
  if (← command .vars).finalized then
    return
  command (.assign fun v => { v with finalized := true })
  match error with
  | some error =>
    command (.onCloseError error)
    startCleanup (some 1)
  | none =>
    command .onClosed
    startCleanup (some 0)

/-- The function `createShutdownHandler` returns. -/
def shutdown (signal : JsString) : Handler := do
  if (← command .vars).started then
    command (.onRepeat signal)
    return
  command (.assign fun v => { v with started := true })
  command .beginDraining
  command (.onStart signal)
  command .setTimeout
  command (.assign fun v => { v with timeout := true })
  match ← command .serverClose with
  | .ok _ => return
  | .error error => finish (some error)

/-- The first reaction of the promise chain. -/
def runCleanup : Handler := command .cleanup

/-- The reactions to the outcome of `cleanup`. -/
def cleanupSettled (exitCode : Option Nat) (error : Option JsString) : Handler := do
  if let some error := error then
    command (.onCleanupError error)
  command (.assign fun v => { v with cleanupCompleted := true })
  if (← command .vars).timeout then
    command .clearTimeout
    command (.assign fun v => { v with timeout := false })
  if let some exitCode := exitCode then
    if !(← command .vars).forced then
      command (.exit exitCode)

/-! ## The process around it -/

/-- The promise chain: not created, before its first reaction, waiting for
`cleanup`, and in or past the reactions to its outcome. -/
inductive Cleanup where
  | idle
  | queued (exitCode : Option Nat)
  | running (exitCode : Option Nat)
  | settled (exitCode : Option Nat)
  deriving DecidableEq

/-- What a run shows, newest first. An error of `server.close` is reported to
its callback or thrown. -/
inductive Entry where
  | serverClose
  | reported (error : Option JsString)
  | deadline
  | abortShutdown
  | closeAllConnections
  | cleanup
  | settled (error : Option JsString)
  | exit (code : Nat)
  deriving DecidableEq

structure Process where
  vars : Vars
  draining : Bool
  aborted : Bool
  /-- the deadline timer is pending -/
  armed : Bool
  cleanup : Cleanup
  log : List Entry
  deriving DecidableEq

def Process.record (s : Process) (entry : Entry) : Process := { s with log := entry :: s.log }

def now : (a : Action) → Process → Option (Reply a × Process)
  | .vars, s => some (s.vars, s)
  | .assign update, s => some ((), { s with vars := update s.vars })
  | .beginDraining, s => some ((), { s with draining := true })
  | .abortShutdown, s =>
    some ((), if s.aborted then s else { s with aborted := true }.record .abortShutdown)
  | .setTimeout, s => some ((), { s with armed := true })
  | .clearTimeout, s => some ((), { s with armed := false })
  | .chain exitCode, s => some ((), { s with cleanup := .queued exitCode })
  | .serverClose, _ | .closeAllConnections, _ | .cleanup, _ | .exit _, _ | .onStart _, _
  | .onRepeat _, _ | .onForced, _ | .onCloseError _, _ | .onClosed, _ | .onCleanupError _, _ => none

def issue : Action → Process → Process
  | .serverClose, s => s.record .serverClose
  | .closeAllConnections, s => s.record .closeAllConnections
  | .cleanup, s => s.record .cleanup
  | .exit code, s => s.record (.exit code)
  | _, s => s

def reply : (a : Action) → Reply a → Process → Option Process
  | .serverClose, .error error, s => some (s.record (.reported (some error)))
  | _, _, s => some s

def host : Host Action Reply Process where
  now := now
  issue := issue
  reply := reply

/-- How an outside call returns; only `server.close` throws. -/
def answer (thrown : Option JsString) : (a : Action) → Option (Reply a)
  | .serverClose =>
    match thrown with
    | some error => some (.error error)
    | none => some (.ok ())
  | .closeAllConnections | .cleanup | .exit _ | .onStart _ | .onRepeat _ | .onForced
  | .onCloseError _ | .onClosed | .onCleanupError _ => if thrown.isNone then some () else none
  | .vars | .assign _ | .beginDraining | .abortShutdown | .setTimeout | .clearTimeout
  | .chain _ => none

inductive Event where
  | signal (signal : JsString)
  | callback (error : Option JsString)
  | returns (thrown : Option JsString)
  | deadline
  | cleanupRuns
  | cleanupSettles (error : Option JsString)
  deriving DecidableEq

abbrev System : Type 1 := Thread Action Reply Process

/-- The callback exists once `server.close` was called. -/
def step (server : ShutdownServer) (t : System) : Event → Option System
  | .signal signal => some (t.enter host (shutdown signal))
  | .callback error =>
    if .serverClose ∈ t.state.log then
      some (Thread.enter host (finish error) ⟨t.state.record (.reported error), t.calls⟩)
    else none
  | .returns thrown => t.back host (answer thrown)
  | .deadline =>
    if t.calls.isEmpty && t.state.armed then
      some (Thread.enter host (forceExit server)
        ⟨{ t.state with armed := false }.record .deadline, t.calls⟩)
    else none
  | .cleanupRuns =>
    match t.calls, t.state.cleanup with
    | [], .queued exitCode =>
      some (Thread.enter host runCleanup ⟨{ t.state with cleanup := .running exitCode }, []⟩)
    | _, _ => none
  | .cleanupSettles error =>
    match t.calls, t.state.cleanup with
    | [], .running exitCode =>
      some (Thread.enter host (cleanupSettled exitCode error)
        ⟨{ t.state with cleanup := .settled exitCode }.record (.settled error), []⟩)
    | _, _ => none

def Process.initial : Process where
  vars := ⟨false, false, false, false, false, false⟩
  draining := false
  aborted := false
  armed := false
  cleanup := .idle
  log := []

def System.initial : System := ⟨.initial, []⟩

end NewsApi.Runtime.Shutdown
