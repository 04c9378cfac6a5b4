import NewsApi.Config.HttpServer
import NewsApi.Patterns.Machine

/-! # Transport events and their log budget

Each kind of event has windows of its own: the first call behind the end of a
window opens the next one. The clock may stall or go back. -/
namespace NewsApi.HttpServerEvents
open NewsApi.Config NewsApi.Patterns NewsApi.Patterns.Machine

inductive HttpServerEvent where
  | client_error
  | request_timeout
  | header_overflow
  | chunk_extensions_overflow
  | dropped_request
deriving DecidableEq, Repr

structure HttpServerLogDecision where
  emit : Bool
  suppressed : Nat
deriving DecidableEq

structure HttpServerLogState where
  windowStartedAt : Int
  emitted : Nat
  suppressed : Nat
deriving DecidableEq

/-- The limiter's map. -/
abbrev States := HttpServerEvent → Option HttpServerLogState

def noStates : States := fun _ => none

variable (settings : HttpServerLogSettings)

/-- `take` on the entry of its event. -/
def takeEntry (existing : Option HttpServerLogState) (currentTime : Int) :
    HttpServerLogState × HttpServerLogDecision :=
  match existing with
  | none => (⟨currentTime, 1, 0⟩, ⟨true, 0⟩)
  | some existing =>
    if currentTime - existing.windowStartedAt ≥ settings.windowMs then
      (⟨currentTime, 1, 0⟩, ⟨true, existing.suppressed⟩)
    else if existing.emitted < settings.burst then
      ({ existing with emitted := existing.emitted + 1 }, ⟨true, 0⟩)
    else ({ existing with suppressed := existing.suppressed + 1 }, ⟨false, 0⟩)

def take (states : States) (event : HttpServerEvent) (currentTime : Int) :
    States × HttpServerLogDecision :=
  let (state, decision) := takeEntry settings (states event) currentTime
  (Function.update states event (some state), decision)

/-- What is left of an event. -/
inductive Trace where
  | disabled
  /-- `httpServerLogSuppressedTotal` -/
  | counted (event : HttpServerEvent)
  /-- a record with the number of those that were not written, unless that is 0 -/
  | warned (event : HttpServerEvent) (suppressed : Option Nat) (message : String)
deriving DecidableEq

def logHttpServerEvent (warnEnabled : Bool) (states : States) (event : HttpServerEvent)
    (message : String) (currentTime : Int) : States × Trace :=
  if !warnEnabled then (states, .disabled)
  else
    let (states, decision) := take settings states event currentTime
    if !decision.emit then (states, .counted event)
    else
      let suppressed := if decision.suppressed > 0 then some decision.suppressed else none
      (states, .warned event suppressed message)

/-- The messages of the server's two listeners. -/
def eventMessage : HttpServerEvent → String
  | .dropped_request => "HTTP request dropped after per-socket request limit"
  | _ => "HTTP client transport error"

/-- What a server leaves that logs warnings. -/
def traces : States → List (HttpServerEvent × Int) → List Trace
  | _, [] => []
  | states, (event, currentTime) :: calls =>
    let (next, trace) :=
      logHttpServerEvent settings true states event (eventMessage event) currentTime
    trace :: traces next calls

/-! ## Histories -/

/-- A call and its decision. `opened`: a window starts with it. -/
structure Record where
  time : Int
  opened : Bool
  decision : HttpServerLogDecision
deriving DecidableEq

def opensWindow (existing : Option HttpServerLogState) (currentTime : Int) : Bool :=
  existing.all fun existing => currentTime - existing.windowStartedAt ≥ settings.windowMs

def history : States → List (HttpServerEvent × Int) → List (HttpServerEvent × Record)
  | _, [] => []
  | states, (event, currentTime) :: calls =>
    let (next, decision) := take settings states event currentTime
    (event, ⟨currentTime, opensWindow settings (states event) currentTime, decision⟩) ::
      history next calls

def statesAfter : States → List (HttpServerEvent × Int) → States
  | states, [] => states
  | states, (event, currentTime) :: calls =>
    statesAfter (take settings states event currentTime).1 calls

def emitted (records : List Record) : Nat := records.countP fun record => record.decision.emit

def denied (records : List Record) : Nat := records.countP fun record => !record.decision.emit

/-- The suppressed calls that emitted calls have reported. -/
def reported : List Record → Nat
  | [] => 0
  | record :: records =>
    (if record.decision.emit then record.decision.suppressed else 0) + reported records

def pending (state : Option HttpServerLogState) : Nat := (state.map (·.suppressed)).getD 0

/-! ## One event -/

/-- The limiter of a single event. -/
def observe (existing : Option HttpServerLogState) (currentTime : Int) :
    Option HttpServerLogState × Record :=
  let (state, decision) := takeEntry settings existing currentTime
  (some state, ⟨currentTime, opensWindow settings existing currentTime, decision⟩)

variable {settings}

theorem history_eq (states : States) (calls : List (HttpServerEvent × Int)) :
    history settings states calls = outputs (keyed (observe settings)) states calls := by
  induction calls generalizing states with
  | nil => rfl
  | cons call calls ih => exact congrArg _ (ih _)

theorem statesAfter_eq (states : States) (calls : List (HttpServerEvent × Int)) :
    statesAfter settings states calls = after (keyed (observe settings)) states calls := by
  induction calls generalizing states with
  | nil => rfl
  | cons call calls ih => exact ih _

/-- What one call does to the entry of its event: it opens a window and reports
what was suppressed in the last one, or it uses up the budget, or it is suppressed. -/
theorem observe_cases (existing : Option HttpServerLogState) (currentTime : Int) :
    (∃ suppressed, pending existing = suppressed ∧
      (∀ state, existing = some state → state.windowStartedAt + settings.windowMs ≤ currentTime) ∧
      observe settings existing currentTime =
        (some ⟨currentTime, 1, 0⟩, ⟨currentTime, true, true, suppressed⟩)) ∨
    (∃ state, existing = some state ∧ state.emitted < settings.burst ∧
      observe settings existing currentTime =
        (some { state with emitted := state.emitted + 1 }, ⟨currentTime, false, true, 0⟩)) ∨
    (∃ state, existing = some state ∧ settings.burst ≤ state.emitted ∧
      observe settings existing currentTime =
        (some { state with suppressed := state.suppressed + 1 },
          ⟨currentTime, false, false, 0⟩)) := by
  cases existing with
  | none => exact .inl ⟨0, rfl, by simp, rfl⟩
  | some state =>
    by_cases hwindow : currentTime - state.windowStartedAt ≥ settings.windowMs
    · refine .inl ⟨state.suppressed, rfl, ?_, by simp [observe, takeEntry, opensWindow, hwindow]⟩
      intro state' heq
      cases heq
      omega
    · by_cases hbudget : state.emitted < settings.burst
      · exact .inr (.inl ⟨state, rfl, hbudget, by
          simp [observe, takeEntry, opensWindow, hwindow, hbudget]⟩)
      · exact .inr (.inr ⟨state, rfl, by omega, by
          simp [observe, takeEntry, opensWindow, hwindow, hbudget]⟩)

/-- No suppression is lost: it is pending or reported. -/
theorem denied_eq (existing : Option HttpServerLogState) (times : List Int) :
    denied (outputs (observe settings) existing times) + pending existing =
      reported (outputs (observe settings) existing times) +
        pending (after (observe settings) existing times) := by
  induction times generalizing existing with
  | nil => simp [outputs, denied, reported]
  | cons time times ih =>
    rw [outputs, after_cons]
    have hrest := ih (observe settings existing time).1
    rcases @observe_cases settings existing time with ⟨suppressed, hpending, -, heq⟩ |
      ⟨state, rfl, -, heq⟩ | ⟨state, rfl, -, heq⟩
    · rw [heq] at hrest ⊢
      simp [denied, reported, pending] at hrest hpending ⊢
      omega
    · rw [heq] at hrest ⊢
      simp [denied, reported, pending] at hrest ⊢
      omega
    · rw [heq] at hrest ⊢
      simp [denied, reported, pending] at hrest ⊢
      omega

/-- A window in which no other one starts keeps its start and its budget. -/
theorem window_state {state : HttpServerLogState} (hbudget : state.emitted ≤ settings.burst)
    {times : List Int}
    (h : ∀ record ∈ outputs (observe settings) (some state) times, record.opened = false) :
    ∃ last, after (observe settings) (some state) times = some last ∧
      last.windowStartedAt = state.windowStartedAt ∧
      state.emitted + emitted (outputs (observe settings) (some state) times) ≤ settings.burst := by
  induction times generalizing state with
  | nil => exact ⟨state, rfl, rfl, by simpa [outputs, emitted] using hbudget⟩
  | cons time times ih =>
    rw [outputs] at h
    obtain ⟨hfirst, hrest⟩ := List.forall_mem_cons.mp h
    rw [outputs, after_cons]
    rcases @observe_cases settings (some state) time with ⟨suppressed, -, -, heq⟩ |
      ⟨state', hstate, hless, heq⟩ | ⟨state', hstate, hfull, heq⟩
    · simp [heq] at hfirst
    · cases hstate
      rw [heq] at hrest ⊢
      obtain ⟨last, hafter, hstart, hsum⟩ := ih (by exact hless) hrest
      refine ⟨last, hafter, hstart, ?_⟩
      simp [emitted] at hsum ⊢
      omega
    · cases hstate
      rw [heq] at hrest ⊢
      obtain ⟨last, hafter, hstart, hsum⟩ := ih (by simpa using hbudget) hrest
      refine ⟨last, hafter, hstart, ?_⟩
      simp [emitted] at hsum ⊢
      omega

/-! ## The limiter -/

variable (settings) in
/-- Where a window starts, it is at least its length after the last one, and in
between the budget is kept. -/
def KeepsBudget (records : List Record) : Prop :=
  ∀ before start within rest, records = before ++ start :: within ++ rest →
    start.opened = true → (∀ record ∈ within, record.opened = false) →
    emitted (start :: within) ≤ settings.burst ∧
    ∀ next tail, rest = next :: tail → next.opened = true →
      start.time + settings.windowMs ≤ next.time

/-- A call that opens a window is at least a window's length after the last start. -/
theorem observe_opened {existing : Option HttpServerLogState} {time : Int}
    (h : (observe settings existing time).2.opened = true) :
    (observe settings existing time).1 = some ⟨time, 1, 0⟩ ∧
      (observe settings existing time).2.decision.emit = true ∧
      ∀ state, existing = some state → state.windowStartedAt + settings.windowMs ≤ time := by
  rcases @observe_cases settings existing time with ⟨suppressed, -, hlate, heq⟩ |
    ⟨state, -, -, heq⟩ | ⟨state, -, -, heq⟩
  · rw [heq]
    exact ⟨rfl, rfl, hlate⟩
  · simp [heq] at h
  · simp [heq] at h

theorem outputs_cons {existing : Option HttpServerLogState} {times : List Int} {record : Record}
    {records : List Record} (h : outputs (observe settings) existing times = record :: records) :
    ∃ time rest, times = time :: rest ∧ record.time = time ∧
      (observe settings existing time).2 = record ∧
      outputs (observe settings) (observe settings existing time).1 rest = records := by
  cases times with
  | nil => cases h
  | cons time rest =>
    obtain ⟨hrecord, hrecords⟩ := List.cons.inj h
    exact ⟨time, rest, rfl, by rw [← hrecord]; rfl, hrecord, hrecords⟩

theorem outputs_keepsBudget (existing : Option HttpServerLogState) (times : List Int) :
    KeepsBudget settings (outputs (observe settings) existing times) := by
  intro before start within rest hrecords hopened hwithin
  rw [List.append_assoc] at hrecords
  obtain ⟨first, inputs, -, -, hinputs⟩ := outputs_split hrecords
  obtain ⟨time, inputs, rfl, htime, hstart, hinputs⟩ := outputs_cons hinputs
  obtain ⟨hstate, hemit, -⟩ := observe_opened (by rw [hstart]; exact hopened)
  rw [hstate] at hinputs
  obtain ⟨inside, others, -, hinside, hothers⟩ := outputs_split hinputs
  obtain ⟨last, hlast, hlastStart, hsum⟩ :=
    @window_state settings ⟨time, 1, 0⟩ settings.burst_pos _ (hinside ▸ hwithin)
  rw [hinside] at hsum
  rw [hlast] at hothers
  constructor
  · rw [hstart] at hemit
    simp [emitted, hemit] at hsum ⊢
    omega
  · intro next tail hrest hnext
    subst hrest
    obtain ⟨later, -, -, hlater, hrecord, -⟩ := outputs_cons hothers
    have hlate := (observe_opened (by rw [hrecord]; exact hnext)).2.2 last rfl
    rw [hlater, htime]
    rw [hlastStart] at hlate
    exact hlate

theorem history_conserved (calls : List (HttpServerEvent × Int)) (event : HttpServerEvent) :
    denied (ofKey event (history settings noStates calls)) =
      reported (ofKey event (history settings noStates calls)) +
        pending (statesAfter settings noStates calls event) := by
  obtain ⟨hrecords, hstate⟩ := @keyed_ofKey _ _ _ (observe settings) _ _ event noStates calls
  rw [history_eq, statesAfter_eq, hrecords, hstate]
  have hconserved := @denied_eq settings (noStates event) (ofKey event calls)
  simpa [noStates, pending] using hconserved

/-- **The log budget**: of the calls for one event, every denied one is reported
by an emitted one or pending, each window keeps the budget, and they are
decided as if there were no others. -/
theorem log_budget (settings : HttpServerLogSettings) (calls : List (HttpServerEvent × Int))
    (event : HttpServerEvent) :
    denied (ofKey event (history settings noStates calls)) =
      reported (ofKey event (history settings noStates calls)) +
        pending (statesAfter settings noStates calls event) ∧
    KeepsBudget settings (ofKey event (history settings noStates calls)) ∧
    ofKey event (history settings noStates calls) =
      ofKey event (history settings noStates (calls.filter fun call => call.1 = event)) := by
  refine ⟨history_conserved calls event, ?_⟩
  obtain ⟨hrecords, -⟩ := @keyed_ofKey _ _ _ (observe settings) _ _ event noStates calls
  obtain ⟨halone, -⟩ := @keyed_ofKey _ _ _ (observe settings) _ _ event noStates
    (calls.filter fun call => call.1 = event)
  rw [history_eq, history_eq, hrecords, halone, ofKey_filter]
  exact ⟨outputs_keepsBudget _ _, rfl⟩

example : (history ⟨2, 100, by omega, by omega⟩ noStates
    [(.client_error, 0), (.client_error, 0), (.client_error, 0), (.header_overflow, 0),
      (.client_error, 100)]).map (·.2.decision) =
    [⟨true, 0⟩, ⟨true, 0⟩, ⟨false, 0⟩, ⟨true, 0⟩, ⟨true, 1⟩] := by
  decide

/-! ## Metric and log -/

def countedFor (event : HttpServerEvent) (left : List Trace) : Nat :=
  left.countP fun trace => trace = .counted event

/-- The numbers in the log records of an event. -/
def loggedFor (event : HttpServerEvent) : List Trace → Nat
  | [] => 0
  | .warned other suppressed _ :: left =>
    (if other = event then suppressed.getD 0 else 0) + loggedFor event left
  | _ :: left => loggedFor event left

/-- A number that is left out of a record is 0. -/
theorem getD_positive (n : Nat) : (if n > 0 then some n else none).getD 0 = n := by
  split
  · rfl
  · simp
    omega

theorem logHttpServerEvent_enabled (states : States) (event : HttpServerEvent) (message : String)
    (time : Int) : logHttpServerEvent settings true states event message time =
      ((take settings states event time).1,
        if (take settings states event time).2.emit then
          .warned event (if (take settings states event time).2.suppressed > 0 then
            some (take settings states event time).2.suppressed else none) message
        else .counted event) := by
  unfold logHttpServerEvent
  cases hemit : (take settings states event time).2.emit with
  | true => simp [hemit]
  | false => simp [hemit]

theorem traces_eq (event : HttpServerEvent) (states : States)
    (calls : List (HttpServerEvent × Int)) :
    countedFor event (traces settings states calls) =
        denied (ofKey event (history settings states calls)) ∧
      loggedFor event (traces settings states calls) =
        reported (ofKey event (history settings states calls)) := by
  induction calls generalizing states with
  | nil => exact ⟨rfl, rfl⟩
  | cons call calls ih =>
    obtain ⟨other, time⟩ := call
    obtain ⟨hcounted, hlogged⟩ := ih (take settings states other time).1
    simp only [traces, history, logHttpServerEvent_enabled]
    by_cases hkey : other = event
    · subst hkey
      rw [ofKey_cons_self]
      cases hemit : (take settings states other time).2.emit with
      | true =>
        simp [countedFor, loggedFor, denied, reported, hemit, getD_positive] at hcounted hlogged ⊢
        exact ⟨hcounted, hlogged⟩
      | false =>
        simp [countedFor, loggedFor, denied, reported, hemit] at hcounted hlogged ⊢
        exact ⟨hcounted, hlogged⟩
    · rw [ofKey_cons_ne hkey]
      cases hemit : (take settings states other time).2.emit with
      | true =>
        simp [countedFor, loggedFor, denied, hkey] at hcounted hlogged ⊢
        exact ⟨hcounted, hlogged⟩
      | false =>
        simp [countedFor, loggedFor, denied, hkey] at hcounted hlogged ⊢
        exact ⟨hcounted, hlogged⟩

/-- The metric of an event counts what its log records have told and what is pending. -/
theorem suppressed_metric (calls : List (HttpServerEvent × Int)) (event : HttpServerEvent) :
    countedFor event (traces settings noStates calls) =
      loggedFor event (traces settings noStates calls) +
        pending (statesAfter settings noStates calls event) := by
  obtain ⟨hcounted, hlogged⟩ := @traces_eq settings event noStates calls
  rw [hcounted, hlogged]
  exact history_conserved calls event

end NewsApi.HttpServerEvents
