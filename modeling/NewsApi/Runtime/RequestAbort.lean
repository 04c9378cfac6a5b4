import NewsApi.Async.Run

/-! # The abort signal of a request

One request on its connection, from its arrival on. The controller makes the
signal, behind all asynchronous middleware; the response emits `close` once,
whether anyone listens or not. -/
namespace NewsApi.RequestAbort
open NewsApi.Async

inductive Event where
  | arrive
  /-- the last middleware, such as the rate limit's check in Redis, has called `next` -/
  | middlewareDone
  /-- the controller calls `createRequestAbortSignal` -/
  | createSignal
  | endResponse
  | finish
  | close
deriving DecidableEq

structure RequestState where
  arrived : Bool
  middlewareDone : Bool
  writableEnded : Bool
  finished : Bool
  closed : Bool
  /-- the connection has closed before the response was ended -/
  closedEarly : Bool
  /-- `abortOnPrematureClose` waits for `close` -/
  closeListener : Bool
  finishListener : Bool
  /-- whether the signal is aborted, once there is one -/
  signal : Option Bool
  /-- `requestCancellationsTotal` with reason `client_disconnect` -/
  disconnects : Nat
deriving DecidableEq

def abortOnPrematureClose (s : RequestState) : RequestState :=
  if s.writableEnded || s.signal == some true then s
  else { s with signal := some true, disconnects := s.disconnects + 1 }

def createRequestAbortSignal (s : RequestState) : RequestState :=
  { s with signal := some false, closeListener := true, finishListener := true }

/-- A listener added with `once` is removed before it is called. -/
def emitClose (s : RequestState) : RequestState :=
  let s := { s with closed := true, closedEarly := !s.writableEnded }
  if s.closeListener then abortOnPrematureClose { s with closeListener := false } else s

def emitFinish (s : RequestState) : RequestState :=
  let s := { s with finished := true }
  if s.finishListener then { s with finishListener := false, closeListener := false } else s

def step (s : RequestState) : Event → Option RequestState
  | .arrive => if s.arrived then none else some { s with arrived := true }
  | .middlewareDone =>
    if s.arrived && !s.middlewareDone then some { s with middlewareDone := true } else none
  | .createSignal =>
    if s.middlewareDone && s.signal.isNone then some (createRequestAbortSignal s) else none
  | .endResponse => if s.arrived then some { s with writableEnded := true } else none
  | .finish => if s.writableEnded && !s.finished then some (emitFinish s) else none
  | .close => if s.arrived && !s.closed then some (emitClose s) else none

def initial : RequestState :=
  ⟨false, false, false, false, false, false, false, false, none, 0⟩

/-! ## Signals in time -/

/-- A disconnect aborts the signal and is counted once. A response that was
ended first leaves the signal alone. -/
structure Noticed (s : RequestState) : Prop where
  aborted : s.closedEarly = true → s.signal.isSome = true →
    s.signal = some true ∧ s.disconnects = 1
  kept : s.writableEnded = true → s.closedEarly = false → s.signal ≠ some true

/-- Until the response is ended or the connection closes, a signal has its listener. -/
structure Invariant (s : RequestState) : Prop where
  listening : s.signal = some false → s.closed = false → s.writableEnded = false →
    s.closeListener = true
  early : s.closedEarly = true → s.closed = true
  unended : s.closed = true → s.writableEnded = false → s.closedEarly = true
  signal : s.closedEarly = true → s.signal ≠ some false
  aborted : s.signal = some true → s.closedEarly = true ∧ s.disconnects = 1
  count : s.signal ≠ some true → s.disconnects = 0
  listener : s.closeListener = true → s.signal.isSome = true

theorem Invariant.noticed {s : RequestState} (h : Invariant s) : Noticed s where
  aborted hearly hsome := by
    cases hsignal : s.signal with
    | none => simp [hsignal] at hsome
    | some aborted =>
      cases aborted with
      | false => exact absurd hsignal (h.signal hearly)
      | true => exact ⟨rfl, (h.aborted hsignal).2⟩
  kept _ hearly hsignal := by
    have := (h.aborted hsignal).1
    simp [hearly] at this

theorem initial_invariant : Invariant initial where
  listening h := by cases h
  early h := by cases h
  unended h := by cases h
  signal h := by cases h
  aborted h := by cases h
  count _ := rfl
  listener h := by cases h

/-- What `close` does to a response that is still open. -/
theorem emitClose_cases (s : RequestState) (hsignal : s.signal ≠ some true) :
    (s.writableEnded = true ∧
      emitClose s = { s with closed := true, closedEarly := false, closeListener := false }) ∨
    (s.writableEnded = false ∧ s.closeListener = false ∧
      emitClose s = { s with closed := true, closedEarly := true }) ∨
    (s.writableEnded = false ∧ s.closeListener = true ∧
      emitClose s = { s with
        closed := true
        closedEarly := true
        closeListener := false
        signal := some true
        disconnects := s.disconnects + 1 }) := by
  cases hended : s.writableEnded with
  | true =>
    refine .inl ⟨rfl, ?_⟩
    cases hlistener : s.closeListener with
    | true => simp [emitClose, abortOnPrematureClose, hended, hlistener]
    | false => simp [emitClose, hended, hlistener]
  | false =>
    refine .inr ?_
    cases hlistener : s.closeListener with
    | true =>
      refine .inr ⟨rfl, rfl, ?_⟩
      simp [emitClose, abortOnPrematureClose, hended, hlistener, hsignal]
    | false =>
      refine .inl ⟨rfl, rfl, ?_⟩
      simp [emitClose, hended, hlistener]

theorem emitClose_invariant {s : RequestState} (h : Invariant s) (hclosed : s.closed = false) :
    Invariant (emitClose s) := by
  have hsignal : s.signal ≠ some true := by
    intro habort
    have hearly := h.early (h.aborted habort).1
    simp [hclosed] at hearly
  have hcount := h.count hsignal
  rcases emitClose_cases s hsignal with ⟨hended, heq⟩ | ⟨hended, hlistener, heq⟩ |
    ⟨hended, hlistener, heq⟩
  · rw [heq]
    constructor <;> simp_all
  · -- nobody listens, so there is no signal yet
    have hnone : s.signal ≠ some false := by
      intro hnew
      simpa [hlistener] using h.listening hnew hclosed hended
    rw [heq]
    constructor <;> simp_all
  · rw [heq]
    constructor <;> simp_all

theorem emitFinish_invariant {s : RequestState} (h : Invariant s)
    (hended : s.writableEnded = true) : Invariant (emitFinish s) := by
  obtain ⟨-, hearly, -, hsignal, haborted, hcount, hlistener⟩ := h
  unfold emitFinish
  cases s.finishListener with
  | true => constructor <;> simp_all
  | false => constructor <;> simp_all

/-- A signal that is created in time has its listener before the connection closes. -/
theorem createRequestAbortSignal_invariant {s : RequestState} (h : Invariant s)
    (hnone : s.signal = none) (hearly : s.closedEarly = false) :
    Invariant (createRequestAbortSignal s) := by
  have hcount := h.count (by simp [hnone])
  have hopen := h.unended
  constructor <;> simp_all [createRequestAbortSignal]

theorem step_invariant {s s' : RequestState} {event : Event} (h : Invariant s)
    (htime : event = .createSignal → s.closedEarly = false) (hstep : step s event = some s') :
    Invariant s' := by
  cases event with
  | arrive =>
    simp only [step, Option.ite_none_left_eq_some, Option.some.injEq] at hstep
    obtain ⟨-, rfl⟩ := hstep
    exact ⟨h.listening, h.early, h.unended, h.signal, h.aborted, h.count, h.listener⟩
  | middlewareDone =>
    simp only [step, Option.ite_none_right_eq_some, Option.some.injEq] at hstep
    obtain ⟨-, rfl⟩ := hstep
    exact ⟨h.listening, h.early, h.unended, h.signal, h.aborted, h.count, h.listener⟩
  | createSignal =>
    simp only [step, Option.ite_none_right_eq_some, Option.some.injEq, Bool.and_eq_true,
      Option.isNone_iff_eq_none] at hstep
    obtain ⟨⟨-, hnone⟩, rfl⟩ := hstep
    exact createRequestAbortSignal_invariant h hnone (htime rfl)
  | endResponse =>
    simp only [step, Option.ite_none_right_eq_some, Option.some.injEq] at hstep
    obtain ⟨-, rfl⟩ := hstep
    refine ⟨?_, h.early, ?_, h.signal, h.aborted, h.count, h.listener⟩
    · simp
    · simp
  | finish =>
    simp only [step, Option.ite_none_right_eq_some, Option.some.injEq, Bool.and_eq_true] at hstep
    obtain ⟨⟨hended, -⟩, rfl⟩ := hstep
    exact emitFinish_invariant h hended
  | close =>
    simp only [step, Option.ite_none_right_eq_some, Option.some.injEq, Bool.and_eq_true,
      Bool.not_eq_true'] at hstep
    obtain ⟨⟨-, hclosed⟩, rfl⟩ := hstep
    exact emitClose_invariant h hclosed

/-- A signal that is created behind a premature close waits for an event that is over. -/
theorem created_late {s s' : RequestState} (hearly : s.closedEarly = true)
    (h : step s .createSignal = some s') : ¬Noticed s' := by
  simp only [step, Option.ite_none_right_eq_some, Option.some.injEq] at h
  obtain ⟨-, rfl⟩ := h
  intro hnoticed
  have habort := (hnoticed.aborted hearly rfl).1
  cases habort

/-- **Disconnects are noticed** in the runs in which no signal is created behind
a premature close, and in no others. -/
theorem disconnect_noticed (events : List Event) :
    (∀ before after s, events = before ++ after → run step initial before = some s →
      Noticed s) ↔
    ∀ before after s s', events = before ++ .createSignal :: after →
      run step initial before = some s → step s .createSignal = some s' →
      s.closedEarly = false := by
  constructor
  · intro hall before after s s' hevents hbefore hstep
    have hafter : run step initial (before ++ [.createSignal]) = some s' := by
      simp [run_append, hbefore, run, hstep]
    cases hearly : s.closedEarly with
    | false => rfl
    | true =>
      have hnoticed := hall (before ++ [.createSignal]) after s' (by simp [hevents]) hafter
      exact absurd hnoticed (created_late hearly hstep)
  · intro htime before after s hevents hbefore
    have hinvariant := run_invariant_where
      (Q := fun s event => ∀ s', event = .createSignal → step s event = some s' →
        s.closedEarly = false)
      (fun s event s' h hok hstep => step_invariant h (fun he => hok s' he hstep) hstep)
      initial_invariant ?_ hbefore
    · exact hinvariant.noticed
    · rintro first event rest t rfl hfirst s' rfl hstep
      exact htime first (rest ++ after) t s' (by simp [hevents]) hfirst hstep

/-- The client leaves while its request waits for the rate limit. -/
theorem disconnect_noticed_waiting : ¬∀ s, Reachable step initial s → Noticed s := by
  intro hall
  obtain ⟨s, hreach, hlate⟩ := @Reachable.of_run _ _ step initial
    (fun s => s.closedEarly && s.signal == some false)
    [.arrive, .close, .middlewareDone, .createSignal] (by decide)
  simp only [Bool.and_eq_true, beq_iff_eq] at hlate
  have habort := ((hall s hreach).aborted hlate.1 (by simp [hlate.2])).1
  simp [hlate.2] at habort

end NewsApi.RequestAbort
