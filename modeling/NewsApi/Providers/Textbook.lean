import NewsApi.Patterns.CircuitBreaker
import NewsApi.Providers.GNewsProvider

/-! # The circuit variables against the textbook breaker

What the four circuit functions make of the three fields in one search that
nobody overlaps, by how the search came out, is what the textbook breaker
does. The fields keep the old failure count while the circuit is open. -/
namespace NewsApi.Providers
open NewsApi.Types NewsApi.Config NewsApi.Errors NewsApi.Patterns

/-- An error that is not a cancellation, by the status of the response if there
is one. Statuses above 599 do not exist and are taken as 5xx. -/
def errorOutcome : JsError → Outcome
  | .axios error =>
    match error.response with
    | none => .transient
    | some (status, _) =>
      if status = 408 ∨ status = 425 ∨ status = 429 ∨ 500 ≤ status then .transient else .permanent
  | _ => .transient

/-- How a search comes out whose last attempt was answered so. -/
def answerOutcome : Except JsError Json → Outcome
  | .ok data =>
    match normalizeArticles data with
    | .ok _ => .success
    | .error _ => .transient
  | .error error => if isRequestAbortedError error then .cancelled else errorOutcome error

/-- What an admitted search does to the circuit when it comes out so. -/
def settled (settings : Settings) (circuitState : CircuitRequestState) (outcome : Outcome)
    (now : Nat) (circuit : CircuitState) : CircuitState :=
  match outcome with
  | .success => closeCircuit circuit
  | .transient => recordProviderFailure settings now circuit
  | .permanent => if circuitState = .halfOpen then closeCircuit circuit else circuit
  | .cancelled => recordCanceledProbe circuitState now circuit

/-- The fields stand for the state of the breaker. -/
def Simulates (settings : Settings) : CircuitBreaker → CircuitState → Prop
  | .closed n, circuit => circuit = ⟨n, none, false⟩ ∧ n < settings.failureThreshold
  | .opened since, circuit => circuit.openedAt = some since ∧ circuit.halfOpenInFlight = false ∧
      settings.failureThreshold ≤ circuit.failures

variable {settings : Settings} {m : CircuitBreaker} {circuit circuit' : CircuitState} {start finish : Nat}
  {circuitState : CircuitRequestState} {outcome : Outcome}

theorem simulates_initial : Simulates settings (.closed 0) .initial :=
  ⟨rfl, settings.failureThreshold_pos⟩

theorem errorOutcome_eq {error : JsError} (h : isRequestAbortedError error = false) :
    errorOutcome error =
      if shouldRecordProviderFailure error then .transient else .permanent := by
  cases error with
  | axios error =>
    obtain ⟨code, _ | ⟨status, headers⟩⟩ := error
    · simp [shouldRecordProviderFailure, errorOutcome, h, AxiosError.status]
    · simp [shouldRecordProviderFailure, errorOutcome, h, AxiosError.status, or_assoc]
  | _ => simp [shouldRecordProviderFailure, errorOutcome, h]

/-- The check lets a search through when the breaker does. -/
theorem Simulates.check (h : Simulates settings m circuit) :
    (∃ circuitState circuit', assertCircuitAllowsRequest settings start circuit =
      (.ok circuitState, circuit')) ↔ m.admits settings.cooldownMs start = true := by
  cases m with
  | closed n =>
    obtain ⟨rfl, -⟩ := h
    simp [assertCircuitAllowsRequest, CircuitBreaker.admits]
  | opened since =>
    obtain ⟨hopen, -, -⟩ := h
    by_cases hlt : start < since + settings.cooldownMs
    · simp [assertCircuitAllowsRequest, CircuitBreaker.admits, hopen, hlt]
    · simp [assertCircuitAllowsRequest, CircuitBreaker.admits, hopen, hlt, Nat.not_lt.mp hlt]

/-- An admitted search takes the fields where it takes the breaker. -/
theorem Simulates.after (h : Simulates settings m circuit)
    (hc : assertCircuitAllowsRequest settings start circuit = (.ok circuitState, circuit')) :
    Simulates settings (m.after settings.failureThreshold outcome finish)
      (settled settings circuitState outcome finish circuit') := by
  cases m with
  | closed n =>
    obtain ⟨rfl, hn⟩ := h
    obtain ⟨rfl, rfl⟩ : circuitState = .closed ∧ circuit' = ⟨n, none, false⟩ := by
      simpa [assertCircuitAllowsRequest, eq_comm] using hc
    cases outcome with
    | success => exact ⟨rfl, settings.failureThreshold_pos⟩
    | permanent | cancelled => exact ⟨rfl, hn⟩
    | transient =>
      by_cases hnext : n + 1 < settings.failureThreshold
      · simp [CircuitBreaker.after, Simulates, settled, recordProviderFailure, hnext]
      · have hle := Nat.not_lt.mp hnext
        simp [CircuitBreaker.after, Simulates, settled, recordProviderFailure, hnext, hle]
  | opened since =>
    obtain ⟨hopen, hflight, hfailures⟩ := h
    have hadmitted : circuitState = .halfOpen := by
      cases circuitState with
      | halfOpen => rfl
      | closed => rw [(assert_closed hc).1] at hopen; cases hopen
    subst hadmitted
    obtain ⟨-, rfl⟩ := assert_halfOpen hc
    cases outcome with
    | success | permanent => exact ⟨rfl, settings.failureThreshold_pos⟩
    | cancelled => exact ⟨rfl, rfl, hfailures⟩
    | transient =>
      have hle : settings.failureThreshold ≤ circuit.failures + 1 := by omega
      simp [CircuitBreaker.after, Simulates, settled, recordProviderFailure, hle]

end NewsApi.Providers
