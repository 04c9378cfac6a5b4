import NewsApi.Async.Host
import NewsApi.Runtime.Commands

/-! # The process that searches run in

The state a search can reach: what all searches of the process share (clock,
shutdown signal, circuit) and what is its own (its signals, its heartbeat, what
it read and wrote). The circuit's history is not part of the process; it records
which search did what to the circuit, newest first. -/
namespace NewsApi.Runtime
open NewsApi.Async NewsApi.Text NewsApi.Types NewsApi.Config NewsApi.Errors NewsApi.Providers

inductive CircuitOp where
  | check (result : Except JsError CircuitRequestState)
  | close
  | failure
  | cancel (circuitState : CircuitRequestState)

structure CircuitEvent where
  search : Nat
  time : Nat
  op : CircuitOp

structure Shared where
  clock : Nat
  shutdown : Bool
  circuit : CircuitState
  history : List CircuitEvent

structure Heartbeat where
  key : JsString
  owner : JsString
  ttlMs : Nat

structure Local where
  id : Nat
  client : Bool
  /-- when the total deadline fires, while it is armed -/
  deadlineAt : Option Nat
  deadline : Bool
  /-- the numbers `Math.random` and `randomUUID` will return to this search -/
  randoms : Nat → Rat
  drawn : Nat
  uuid : JsString
  heartbeat : Option Heartbeat
  provider : Option (Except JsError ArticleList)
  /-- entries this search read from the store, and entries it wrote -/
  reads : List (JsString × Json)
  writes : List (JsString × Json × Nat)

structure View where
  sh : Shared
  lo : Local

def Shared.initial : Shared where
  clock := 0
  shutdown := false
  circuit := .initial
  history := []

/-- A search before its first step. -/
def Local.start (id : Nat) (randoms : Nat → Rat) (uuid : JsString) : Local where
  id := id
  client := false
  deadlineAt := none
  deadline := false
  randoms := randoms
  drawn := 0
  uuid := uuid
  heartbeat := none
  provider := none
  reads := []
  writes := []

def View.aborted (v : View) : Signal → Bool
  | .client => v.lo.client
  | .shutdown => v.sh.shutdown
  | .deadline => v.lo.deadline
  | .request => v.lo.client || v.sh.shutdown || v.lo.deadline

/-- A circuit function takes effect and is recorded. -/
def View.circuitStep (v : View) (op : CircuitOp) (circuit : CircuitState) : View :=
  { v with sh := { v.sh with
      circuit := circuit
      history := ⟨v.lo.id, v.sh.clock, op⟩ :: v.sh.history } }

def now (settings : Settings) : (c : Command) → View → Option (Reply c × View)
  | .aborted signal, v => some (v.aborted signal, v)
  | .dateNow, v => some (v.sh.clock, v)
  | .random, v => some (v.lo.randoms v.lo.drawn, { v with lo.drawn := v.lo.drawn + 1 })
  | .randomUUID, v => some (v.lo.uuid, v)
  | .createAbortDeadline timeoutMs, v =>
    some ((), { v with lo.deadlineAt := some (v.sh.clock + timeoutMs), lo.deadline := false })
  | .cancelDeadline, v => some ((), { v with lo.deadlineAt := none })
  | .assertCircuitAllowsRequest, v =>
    let (result, circuit) := Providers.assertCircuitAllowsRequest settings v.sh.clock v.sh.circuit
    some (result, v.circuitStep (.check result) circuit)
  | .closeCircuit, v => some ((), v.circuitStep .close (Providers.closeCircuit v.sh.circuit))
  | .recordProviderFailure, v =>
    some ((), v.circuitStep .failure
      (Providers.recordProviderFailure settings v.sh.clock v.sh.circuit))
  | .recordCanceledProbe circuitState, v =>
    some ((), v.circuitStep (.cancel circuitState)
      (Providers.recordCanceledProbe circuitState v.sh.clock v.sh.circuit))
  | .startHeartbeat key owner ttlMs, v =>
    some ((), { v with lo.heartbeat := some ⟨key, owner, ttlMs⟩ })
  | .stopHeartbeat, v => some ((), { v with lo.heartbeat := none })
  | .providerSettled result, v =>
    some ((), { v with lo.provider := v.lo.provider.or (some result) })
  | .storeGet _, _ | .storeSet _ _ _, _ | .storeDelete _, _ | .tryAcquireLease _ _ _, _
  | .releaseLease _ _, _ | .sleep _ _, _ | .axiosGet _, _ | .tick, _ => none

/-- Sending a command. A write that was sent may land whatever its reply is. -/
def issue : Command → View → View
  | .storeSet key value ttlSec, v => { v with lo.writes := (key, value, ttlSec) :: v.lo.writes }
  | _, v => v

/-- A timer rejects only for its signal; with `honest`, so does a cancelled
request. Every other answer is possible. -/
def reply (honest : Bool) : (c : Command) → Reply c → View → Option View
  | .storeGet key, .ok (some value), v =>
    some { v with lo.reads := (key, value) :: v.lo.reads }
  | .sleep _ signal, .error error, v =>
    match error with
    | .requestAborted => if v.aborted signal then some v else none
    | _ => none
  | .axiosGet _, .error error, v =>
    if honest && isRequestAbortedError error && !v.aborted .request then none else some v
  | _, _, v => some v

def jobHost (settings : Settings) (honest : Bool) : Host Command Reply View where
  now := now settings
  issue := issue
  reply := reply honest

/-- The total deadline fires once its time has come, unless it was cancelled. -/
def fireDeadline (now : Nat) (lo : Local) : Option Local :=
  match lo.deadlineAt with
  | none => none
  | some t => if t ≤ now then some { lo with deadlineAt := none, deadline := true } else none

/-- A renewal of the heartbeat is answered: a lease that is lost stops it, an
error is only counted. -/
def renew (result : Except JsError Bool) (lo : Local) : Option Local :=
  lo.heartbeat.map fun heartbeat => match result with
    | .ok false => { lo with heartbeat := none }
    | _ => { lo with heartbeat := some heartbeat }

/-! ## What commands leave alone -/

/-- The commands that do not touch the circuit. -/
def Command.LeavesCircuit : Command → Prop
  | .assertCircuitAllowsRequest | .closeCircuit | .recordProviderFailure
  | .recordCanceledProbe _ => False
  | _ => True

variable {settings : Settings} {honest : Bool} {c : Command} {v v' : View}

theorem now_id {r : Reply c} (h : now settings c v = some (r, v')) : v'.lo.id = v.lo.id := by
  cases c <;> simp only [now, Option.some.injEq, Prod.mk.injEq, reduceCtorEq] at h <;>
    obtain ⟨-, rfl⟩ := h <;> rfl

theorem now_leavesCircuit {r : Reply c} (h : now settings c v = some (r, v'))
    (hc : c.LeavesCircuit) : v'.sh = v.sh := by
  cases c <;> simp only [now, Option.some.injEq, Prod.mk.injEq, reduceCtorEq] at h <;>
    first | exact hc.elim | (obtain ⟨-, rfl⟩ := h; rfl)

theorem issue_sh : (issue c v).sh = v.sh := by cases c <;> rfl

theorem issue_id : (issue c v).lo.id = v.lo.id := by cases c <;> rfl

theorem reply_frame {r : Reply c} (h : reply honest c r v = some v') :
    v'.sh = v.sh ∧ v'.lo.id = v.lo.id := by
  unfold reply at h
  split at h
  · cases h; exact ⟨rfl, rfl⟩
  · split at h
    · split at h <;> cases h
      exact ⟨rfl, rfl⟩
    · cases h
  · split at h <;> cases h
    exact ⟨rfl, rfl⟩
  · cases h; exact ⟨rfl, rfl⟩

/-! ## Rules -/

section
variable {K : Contract View}

/-- A command answered within the step, before the rest of the block. -/
theorem wp_ask {α : Type} {r : Reply c} {f : Reply c → Job α} {Q : Except JsError α → View → Prop}
    (hn : now settings c v = some (r, v'))
    (hq : (jobHost settings honest).wp K (f r).run Q v') :
    (jobHost settings honest).wp K (ask c >>= f).run Q v := by
  rw [Host.wp_run_bind, ask, Host.wp_run_lift]
  exact Host.wp_now hn hq

theorem wp_tick {Q : Except JsError Unit → View → Prop} (hi : K.inv v)
    (hq : ∀ v', K.rely v v' → K.inv v' → Q (.ok ()) v') :
    (jobHost settings honest).wp K (ask .tick).run Q v := by
  refine ⟨hi, fun v1 h1 h2 r v2 h3 => ?_⟩
  cases h3
  exact hq v1 h1 h2

theorem wp_throwIfAborted {signal : Signal} {Q : Except JsError Unit → View → Prop}
    (hq : Q (if v.aborted signal then .error .requestAborted else .ok ()) v) :
    (jobHost settings honest).wp K (throwIfAborted signal).run Q v := by
  refine wp_ask rfl ?_
  cases h : v.aborted signal <;> simpa [h] using hq

/-- A span waits one turn after its operation has settled. -/
theorem wp_withSpan {α : Type} {operation : Job α} {Q : Except JsError α → View → Prop}
    (h : (jobHost settings honest).wp K operation.run
      (fun r v => K.inv v ∧ ∀ v', K.rely v v' → K.inv v' → Q r v') v) :
    (jobHost settings honest).wp K (withSpan operation).run Q v := by
  simp only [withSpan, Host.wp_run_bind, Host.wp_run_attempt, Host.afterOk_ok]
  refine Host.wp_mono h fun r v1 h1 => wp_tick h1.1 fun v2 h2 h3 => ?_
  exact h1.2 v2 h2 h3

end

end NewsApi.Runtime
