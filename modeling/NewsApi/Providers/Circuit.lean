import NewsApi.Config.Settings
import NewsApi.Errors
import NewsApi.Http.RetryAfter

/-! # The circuit breaker's state

Three fields shared by all searches of a process, and the functions that read
and write them. `Date.now()` is an argument. -/
namespace NewsApi.Providers
open NewsApi.Text NewsApi.Config NewsApi.Errors NewsApi.Http

structure CircuitState where
  failures : Nat
  openedAt : Option Nat
  halfOpenInFlight : Bool
  deriving DecidableEq

inductive CircuitRequestState where
  | closed
  | halfOpen
  deriving DecidableEq

/-- `circuit` when the process starts. -/
def CircuitState.initial : CircuitState where
  failures := 0
  openedAt := none
  halfOpenInFlight := false

def circuitRetryAfter (settings : Settings) (circuit : CircuitState) (now : Nat) : JsString :=
  match circuit.openedAt with
  | none => js "1"
  | some openedAt =>
    -- Math.max(1, Math.ceil(remainingMs / 1_000))
    let remainingMs : Int := openedAt + settings.cooldownMs - now
    decimal (min (max 1 ((remainingMs + 999) / 1000)).toNat MAX_RETRY_AFTER_SECONDS)

def circuitOpenError (settings : Settings) (circuit : CircuitState) (now : Nat) : JsError :=
  .http {
    statusCode := 503
    message := "Upstream news service temporarily unavailable"
    code := "upstream_circuit_open"
    retryAfter := some (circuitRetryAfter settings circuit now) }

/-- `now - openedAt < cooldownMs()` is written without subtraction. -/
def assertCircuitAllowsRequest (settings : Settings) (now : Nat) (circuit : CircuitState) :
    Except JsError CircuitRequestState × CircuitState :=
  match circuit.openedAt with
  | none =>
    if circuit.halfOpenInFlight then (.error (circuitOpenError settings circuit now), circuit)
    else (.ok .closed, circuit)
  | some openedAt =>
    if now < openedAt + settings.cooldownMs then
      (.error (circuitOpenError settings circuit now), circuit)
    else (.ok .halfOpen, { circuit with openedAt := none, halfOpenInFlight := true })

def closeCircuit (_circuit : CircuitState) : CircuitState where
  failures := 0
  openedAt := none
  halfOpenInFlight := false

def recordProviderFailure (settings : Settings) (now : Nat) (circuit : CircuitState) :
    CircuitState where
  failures := circuit.failures + 1
  openedAt :=
    if settings.failureThreshold ≤ circuit.failures + 1 ∧ circuit.openedAt = none then some now
    else circuit.openedAt
  halfOpenInFlight := false

def recordCanceledProbe (circuitState : CircuitRequestState) (now : Nat)
    (circuit : CircuitState) : CircuitState :=
  match circuitState with
  | .closed => circuit
  | .halfOpen => { circuit with halfOpenInFlight := false, openedAt := some now }

def shouldRecordProviderFailure (error : JsError) : Bool :=
  if isRequestAbortedError error then false
  else match error with
    | .axios error =>
      match error.status with
      | none => true
      | some status => status == 408 || status == 425 || status == 429 || 500 ≤ status
    | _ => true

/-! ## What one step can do -/

/-- A check admits a search as a probe exactly when the cooldown is over. -/
theorem assert_halfOpen {settings : Settings} {now : Nat} {c c' : CircuitState}
    (h : assertCircuitAllowsRequest settings now c = (.ok .halfOpen, c')) :
    (∃ t, c.openedAt = some t ∧ t + settings.cooldownMs ≤ now) ∧
      c' = { c with openedAt := none, halfOpenInFlight := true } := by
  unfold assertCircuitAllowsRequest at h
  split at h
  · split at h <;> simp at h
  · rename_i t ht
    split at h
    · simp at h
    · exact ⟨⟨t, ht, by omega⟩, (Prod.mk.inj h).2.symm⟩

/-- A check that admits a search as an ordinary one finds the circuit closed. -/
theorem assert_closed {settings : Settings} {now : Nat} {c c' : CircuitState}
    (h : assertCircuitAllowsRequest settings now c = (.ok .closed, c')) :
    c.openedAt = none ∧ c.halfOpenInFlight = false ∧ c' = c := by
  unfold assertCircuitAllowsRequest at h
  split at h
  · rename_i ht
    split at h
    · simp at h
    · rename_i hf
      exact ⟨ht, by simpa using hf, (Prod.mk.inj h).2.symm⟩
  · split at h <;> simp at h

/-- A rejected search leaves the circuit as it is. -/
theorem assert_error {settings : Settings} {now : Nat} {c c' : CircuitState} {e : JsError}
    (h : assertCircuitAllowsRequest settings now c = (.error e, c')) :
    c' = c ∧ e = circuitOpenError settings c now := by
  unfold assertCircuitAllowsRequest at h
  split at h <;> split at h <;> simp at h <;> exact ⟨h.2.symm, h.1.symm⟩

/-- A check counts no failure. -/
theorem assert_failures (settings : Settings) (now : Nat) (c : CircuitState) :
    (assertCircuitAllowsRequest settings now c).2.failures = c.failures := by
  unfold assertCircuitAllowsRequest
  split <;> split <;> rfl

end NewsApi.Providers
