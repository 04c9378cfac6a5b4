import NewsApi.Async.EventEmitter
import NewsApi.Async.Run

/-! # The gate in front of Redis commands

Every call of `runCommand` on a client waits until the client is ready, the
client ends or the call's timer fires. The calls share the client's emitter,
also with listeners of other code. -/
namespace NewsApi.Redis.CommandRunner
open NewsApi.Async

/-- `client.status`, of which the gate looks for two values. -/
inductive Status where
  | ready
  | ended
  | other
deriving DecidableEq

inductive ClientEvent where
  | ready
  | ended
deriving DecidableEq

/-- The listeners, by the call of `runCommand` that they belong to. -/
inductive Closure where
  | onReady (call : Nat)
  | onEnd (call : Nat)
  | other (id : Nat)
deriving DecidableEq

/-- What can end a wait. -/
inductive Source where
  | ready
  | ended
  | timeout
deriving DecidableEq

inductive Outcome where
  | ready
  | error

inductive Rejection (ε : Type) where
  /-- an `Error` of the gate -/
  | connection (message : String)
  /-- what the command threw or rejected with -/
  | command (error : ε)

structure Call (ε α : Type) where
  /-- the client's status at the start -/
  opening : Status
  /-- what has reached the wait, in order -/
  sources : List Source
  settled : Bool
  /-- the calls of `resolve` and `reject`, of which a promise heeds the first -/
  settlements : List (Except String Unit)
  invocations : Nat
  outcome : Option (Except (Rejection ε) α)

structure Timer where
  call : Nat
  delay : Nat

structure State (ε α : Type) where
  status : Status
  client : Emitter ClientEvent Closure
  timers : List Timer
  /-- in the order of their start -/
  calls : List (Call ε α)
  /-- the calls that go on behind `await waitForReady()` -/
  microtasks : List Nat

variable {ε α : Type}

def Call.isWaiting (c : Call ε α) : Bool := c.settlements.isEmpty

def State.initial (status : Status) : State ε α := ⟨status, .empty, [], [], []⟩

/-- A promise that settles queues what awaits it. -/
def settle (call : Nat) (result : Except String Unit) (s : State ε α) : State ε α := { s with
  calls := s.calls.modify call fun c => { c with settlements := c.settlements ++ [result] }
  microtasks := if s.calls[call]?.any Call.isWaiting then s.microtasks ++ [call]
    else s.microtasks }

def clearTimeout (call : Nat) (s : State ε α) : State ε α :=
  { s with timers := s.timers.filter fun timer => timer.call ≠ call }

def finish (call : Nat) (outcome : Outcome) (error : Option String) (s : State ε α) :
    State ε α :=
  if s.calls[call]?.any Call.settled then s
  else
    let s := { s with calls := s.calls.modify call fun c => { c with settled := true } }
    let s := clearTimeout call s
    let s := { s with client := s.client.off .ready (.onReady call) }
    let s := { s with client := s.client.off .ended (.onEnd call) }
    match outcome with
    | .ready => settle call (.ok ()) s
    | .error => settle call (.error (error.getD "Redis connection failed")) s

def onReady (call : Nat) (s : State ε α) : State ε α := finish call .ready none s

def onEnd (call : Nat) (s : State ε α) : State ε α :=
  finish call .error (some "Redis connection closed") s

def onTimeout (call : Nat) (s : State ε α) : State ε α :=
  finish call .error (some "Redis connection timed out") s

def waitForReady (connectTimeoutMs call : Nat) (s : State ε α) : State ε α :=
  if s.status = .ready then settle call (.ok ()) s
  else if s.status = .ended then settle call (.error "Redis connection is closed") s
  else
    let s := { s with timers := s.timers ++ [Timer.mk call connectTimeoutMs] }
    let s := { s with client := s.client.once .ready (.onReady call) }
    let s := { s with client := s.client.once .ended (.onEnd call) }
    if s.status = .ready then onReady call s else s

/-- A call of `runCommand`, up to its `await`. -/
def runCommand (connectTimeoutMs : Nat) (s : State ε α) : State ε α :=
  waitForReady connectTimeoutMs s.calls.length
    { s with calls := s.calls ++ [⟨s.status, [], false, [], 0, none⟩] }

/-- What is behind `await waitForReady()`: the command, unless the wait was rejected. -/
def Call.proceed (c : Call ε α) : Call ε α :=
  match c.settlements.head? with
  | some (.ok ()) => { c with invocations := c.invocations + 1 }
  | some (.error message) => { c with outcome := some (.error (.connection message)) }
  | none => c

def resume (call : Nat) (s : State ε α) : State ε α :=
  { s with calls := s.calls.modify call Call.proceed }

/-- The promise of the command settles, and with it that of `runCommand`. -/
def commandSettles (call : Nat) (result : Except ε α) (s : State ε α) : State ε α := { s with
  calls := s.calls.modify call fun c =>
    { c with outcome := some (result.mapError .command) } }

/-! ## The client, its timers and other code -/

/-- The source reaches the wait: its callback runs. -/
def notify (call : Nat) (source : Source) (s : State ε α) : State ε α :=
  let s := { s with
    calls := s.calls.modify call fun c => { c with sources := c.sources ++ [source] } }
  match source with
  | .ready => onReady call s
  | .ended => onEnd call s
  | .timeout => onTimeout call s

/-- A listener is called. Those of other code act by events of their own. -/
def callback : Option Closure → State ε α → State ε α
  | some (.onReady call), s => notify call .ready s
  | some (.onEnd call), s => notify call .ended s
  | some (.other _), s => s
  | none, s => s

inductive Event (ε α : Type) where
  | runCommand
  | setStatus (status : Status)
  | listen (event : ClientEvent) (id : Nat) (once : Bool)
  | unlisten (event : ClientEvent) (id : Nat)
  | emit (event : ClientEvent)
  /-- the next step of the emissions in progress -/
  | dispatch
  /-- a listener of other code throws, which ends the emission that called it -/
  | throw
  | timeout (call : Nat)
  | microtask
  | commandSettles (call : Nat) (result : Except ε α)

/-- Other code acts before, after and within emissions. Timers and microtasks
wait for the end of the emissions in progress. -/
def step (connectTimeoutMs : Nat) (s : State ε α) : Event ε α → Option (State ε α)
  | .runCommand => some (runCommand connectTimeoutMs s)
  | .setStatus status => some { s with status }
  | .listen event id once => some { s with client := s.client.add event (.other id) once }
  | .unlisten event id => some { s with client := s.client.off event (.other id) }
  | .emit event => some { s with client := s.client.emit event }
  | .dispatch => s.client.dispatch.map fun (called, client) => callback called { s with client }
  | .throw => s.client.abandon.map fun client => { s with client }
  | .timeout call =>
    if s.client.emissions.isEmpty && s.timers.any (·.call == call) then
      some (notify call .timeout
        { s with timers := s.timers.filter fun timer => timer.call ≠ call })
    else none
  | .microtask =>
    match s.microtasks with
    | [] => none
    | call :: rest =>
      if s.client.emissions.isEmpty then some (resume call { s with microtasks := rest })
      else none
  | .commandSettles call result =>
    if s.calls[call]?.any fun c => c.invocations != 0 && c.outcome.isNone then
      some (commandSettles call result s)
    else none

/-- What a step does, by its event. -/
inductive Steps (connectTimeoutMs : Nat) (s : State ε α) : Event ε α → State ε α → Prop where
  | runCommand : Steps connectTimeoutMs s .runCommand (runCommand connectTimeoutMs s)
  | setStatus {status : Status} : Steps connectTimeoutMs s (.setStatus status) { s with status }
  | listen {event : ClientEvent} {id : Nat} {once : Bool} :
    Steps connectTimeoutMs s (.listen event id once)
      { s with client := s.client.add event (.other id) once }
  | unlisten {event : ClientEvent} {id : Nat} :
    Steps connectTimeoutMs s (.unlisten event id)
      { s with client := s.client.off event (.other id) }
  | emit {event : ClientEvent} :
    Steps connectTimeoutMs s (.emit event) { s with client := s.client.emit event }
  | dispatch {called : Option Closure} {client : Emitter ClientEvent Closure}
    (dispatched : s.client.dispatch = some (called, client)) :
    Steps connectTimeoutMs s .dispatch (callback called { s with client })
  | throw {client : Emitter ClientEvent Closure} (abandoned : s.client.abandon = some client) :
    Steps connectTimeoutMs s .throw { s with client }
  | timeout {call : Nat} (armed : call ∈ s.timers.map Timer.call) :
    Steps connectTimeoutMs s (.timeout call) (notify call .timeout
      { s with timers := s.timers.filter fun timer => timer.call ≠ call })
  | microtask {call : Nat} {rest : List Nat} (queued : s.microtasks = call :: rest) :
    Steps connectTimeoutMs s .microtask (resume call { s with microtasks := rest })
  | commandSettles {call : Nat} {result : Except ε α} {c : Call ε α}
    (known : s.calls[call]? = some c) (invoked : c.invocations ≠ 0) :
    Steps connectTimeoutMs s (.commandSettles call result) (commandSettles call result s)

theorem step_cases {connectTimeoutMs : Nat} {s t : State ε α} {event : Event ε α}
    (h : step connectTimeoutMs s event = some t) : Steps connectTimeoutMs s event t := by
  cases event with
  | runCommand => cases h; exact .runCommand
  | setStatus status => cases h; exact .setStatus
  | listen event id once => cases h; exact .listen
  | unlisten event id => cases h; exact .unlisten
  | emit event => cases h; exact .emit
  | dispatch =>
    obtain ⟨⟨called, client⟩, hdispatch, rfl⟩ := Option.map_eq_some_iff.mp h
    exact .dispatch hdispatch
  | throw =>
    obtain ⟨client, habandon, rfl⟩ := Option.map_eq_some_iff.mp h
    exact .throw habandon
  | timeout call =>
    simp only [step, Option.ite_none_right_eq_some, Bool.and_eq_true, List.any_eq_true,
      beq_iff_eq, Option.some.injEq] at h
    obtain ⟨⟨-, harmed⟩, rfl⟩ := h
    exact .timeout (List.mem_map.mpr harmed)
  | microtask =>
    simp only [step] at h
    split at h
    · cases h
    · rename_i call rest hqueued
      split at h
      · cases h; exact .microtask hqueued
      · cases h
  | commandSettles call result =>
    simp only [step, Option.ite_none_right_eq_some, Option.some.injEq, Option.any_eq_true,
      Bool.and_eq_true, bne_iff_ne] at h
    obtain ⟨⟨c, hc, hinvoked, -⟩, rfl⟩ := h
    exact .commandSettles hc hinvoked

end NewsApi.Redis.CommandRunner
