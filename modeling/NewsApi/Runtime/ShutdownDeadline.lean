import NewsApi.Config.Numbers
import NewsApi.Runtime.Shutdown

/-! # The shutdown deadline

The shutdown handler beside a clock. Its timer is due a delay after it was set,
and the runtime's timers replace a delay that they cannot represent. -/
namespace NewsApi.Runtime.Shutdown
open NewsApi.Async NewsApi.Text NewsApi.Utils NewsApi.Http NewsApi.Config

/-- `SHUTDOWN_TIMEOUT_MS`, which has no maximum of its own. -/
def shutdownTimeoutMs (raw : Option JsString) : Nat :=
  resolvePositiveIntegerEnv raw 10000 MAX_SAFE_INTEGER

def TIMEOUT_MAX : Nat := 2147483647

/-- The setting is not the text of a number that is too large for a timer. -/
def FitsTimer (raw : Option JsString) : Prop :=
  ∀ s ∈ raw, ∀ n, safeNatural (numberOfString s) = some n → n ≤ TIMEOUT_MAX

theorem shutdownTimeoutMs_le_iff (raw : Option JsString) :
    shutdownTimeoutMs raw ≤ TIMEOUT_MAX ↔ FitsTimer raw := by
  unfold shutdownTimeoutMs resolvePositiveIntegerEnv resolveNonNegativeIntegerEnv FitsTimer
  cases raw with
  | none => simp [safeNatural, TIMEOUT_MAX, MAX_SAFE_INTEGER]
  | some s =>
    by_cases hblank : trim s = []
    · have hzero : numberOfString s = .finite 0 := by simp [numberOfString, hblank]
      simp [hblank, hzero, safeNatural, TIMEOUT_MAX]
    · cases hvalue : safeNatural (numberOfString s) with
      | none => simp [hblank, hvalue, TIMEOUT_MAX]
      | some value =>
        simp only [if_neg hblank, hvalue, Option.mem_some_iff, forall_eq', Option.some.injEq]
        unfold TIMEOUT_MAX MAX_SAFE_INTEGER
        split <;> omega

/-- The delay that `setTimeout` keeps to. -/
def timerDelay (ms : Nat) : Nat := if 1 ≤ ms ∧ ms ≤ TIMEOUT_MAX then ms else 1

structure Timed where
  system : System
  clock : Nat
  firstSignal : Option Nat
  /-- when the deadline timer is due, once it was set -/
  due : Option Nat
  /-- when `forceExit` ran, newest first -/
  forceExits : List Nat

inductive TimedEvent where
  | wait (ms : Nat)
  | event (event : Event)

def Event.isSignal : Event → Bool
  | .signal _ => true
  | _ => false

def Timed.isDue (s : Timed) : Bool := s.due.any (· ≤ s.clock)

/-- The timer is set in the step that arms it. -/
def timedStep (server : ShutdownServer) (timeoutMs : Nat) (s : Timed) :
    TimedEvent → Option Timed
  | .wait ms => some { s with clock := s.clock + ms }
  | .event event =>
    if event = .deadline ∧ s.isDue = false then none
    else (step server s.system event).map fun system => { s with
      system
      firstSignal := if event.isSignal then s.firstSignal.or (some s.clock) else s.firstSignal
      due :=
        if system.state.armed && !s.system.state.armed then some (s.clock + timerDelay timeoutMs)
        else s.due
      forceExits := if event = .deadline then s.clock :: s.forceExits else s.forceExits }

def Timed.initial : Timed := ⟨.initial, 0, none, none, []⟩

/-- `forceExit` runs a time after the first signal. -/
def WaitsFor (ms : Nat) (s : Timed) : Prop :=
  ∀ time ∈ s.forceExits, ∃ first, s.firstSignal = some first ∧ first + ms ≤ time

variable {server : ShutdownServer} {timeoutMs : Nat}

/-! ## The timer -/

/-- Nothing happens before the first signal, and the timer is due its delay after it. -/
structure TimerSet (timeoutMs : Nat) (s : Timed) : Prop where
  idle : s.firstSignal = none → s.system = .initial
  past : ∀ first, s.firstSignal = some first → first ≤ s.clock
  armed : s.system.state.armed = true → ∃ first due, s.firstSignal = some first ∧
    s.due = some due ∧ first + timerDelay timeoutMs ≤ due
  forced : WaitsFor (timerDelay timeoutMs) s

theorem initial_timerSet : TimerSet timeoutMs .initial where
  idle _ := rfl
  past first h := by cases h
  armed h := by cases h
  forced time h := by cases h

theorem step_initial {event : Event} {t : System} (h : step server .initial event = some t) :
    event.isSignal = true := by
  cases event with
  | signal signal => rfl
  | callback error => cases h
  | returns thrown => cases h
  | deadline => cases h
  | cleanupRuns => cases h
  | cleanupSettles error => cases h

theorem step_deadline_armed {s t : System} (h : step server s .deadline = some t) :
    s.state.armed = true := by
  simp only [step, Option.ite_none_right_eq_some, Bool.and_eq_true] at h
  exact h.1.2

theorem timedStep_timerSet {s s' : Timed} {event : TimedEvent} (h : TimerSet timeoutMs s)
    (hstep : timedStep server timeoutMs s event = some s') : TimerSet timeoutMs s' := by
  cases event with
  | wait ms =>
    cases hstep
    refine ⟨h.idle, ?_, h.armed, h.forced⟩
    intro first hfirst
    exact (h.past first hfirst).trans (Nat.le_add_right _ _)
  | event event =>
    simp only [timedStep, Option.ite_none_left_eq_some, Option.map_eq_some_iff] at hstep
    obtain ⟨hdue, system, hsystem, rfl⟩ := hstep
    obtain ⟨first, hfirst, hpast, hkept⟩ : ∃ first,
        (if event.isSignal then s.firstSignal.or (some s.clock) else s.firstSignal) = some first ∧
          first ≤ s.clock ∧ ∀ f, s.firstSignal = some f → f = first := by
      cases hsignal : s.firstSignal with
      | none =>
        rw [h.idle hsignal] at hsystem
        exact ⟨s.clock, by simp [step_initial hsystem], Nat.le_refl _, by simp⟩
      | some f => exact ⟨f, by simp, h.past f hsignal, by simp⟩
    refine ⟨?_, ?_, ?_, ?_⟩
    · intro hnone
      cases hfirst.symm.trans hnone
    · intro f hf
      cases hfirst.symm.trans hf
      exact hpast
    · intro harmed
      refine ⟨first, ?_⟩
      cases hbefore : s.system.state.armed with
      | false => exact ⟨s.clock + timerDelay timeoutMs, hfirst, by simp_all, by omega⟩
      | true =>
        obtain ⟨f, due, hf, hset, hle⟩ := h.armed hbefore
        rw [hkept f hf] at hle
        exact ⟨due, hfirst, by simp [hset], hle⟩
    · have hold : ∀ time ∈ s.forceExits, first + timerDelay timeoutMs ≤ time := by
        intro time htime
        obtain ⟨f, hf, hle⟩ := h.forced time htime
        rwa [hkept f hf] at hle
      intro time htime
      refine ⟨first, hfirst, ?_⟩
      by_cases hdeadline : event = .deadline
      · subst hdeadline
        obtain ⟨f, due, hf, hset, hle⟩ := h.armed (step_deadline_armed hsystem)
        rw [hkept f hf] at hle
        have hreached : due ≤ s.clock := by simpa [Timed.isDue, hset] using hdue
        rw [if_pos rfl] at htime
        rcases List.mem_cons.mp htime with rfl | htime
        · omega
        · exact hold time htime
      · rw [if_neg hdeadline] at htime
        exact hold time htime

theorem timerDelay_of_le {ms : Nat} (h : ms ≤ TIMEOUT_MAX) : ms ≤ timerDelay ms := by
  unfold timerDelay
  split <;> omega

/-! ## A timeout that the timer cannot represent -/

/-- The signal, and the returns of the handler's two outside calls. -/
def signalled : List TimedEvent :=
  [.event (.signal (js "SIGTERM")), .event (.returns none), .event (.returns none), .wait 1]

theorem signalled_reached : ∃ s, Reachable (timedStep server timeoutMs) .initial s ∧
    s.clock = 1 ∧ s.firstSignal = some 0 ∧ s.due = some (0 + timerDelay timeoutMs) ∧
    s.forceExits = [] ∧ s.system.calls = [] ∧ s.system.state.armed = true :=
  ⟨_, ⟨signalled, rfl⟩, rfl, rfl, rfl, rfl, rfl, rfl⟩

/-- A timeout above the limit is over after a millisecond. -/
theorem forced_early (h : TIMEOUT_MAX < timeoutMs) :
    ∃ s, Reachable (timedStep server timeoutMs) .initial s ∧ s.firstSignal = some 0 ∧
      s.forceExits = [1] := by
  have hdelay : timerDelay timeoutMs = 1 := if_neg (by omega)
  obtain ⟨s, hreach, hclock, hfirst, hdue, hforced, hcalls, harmed⟩ :=
    @signalled_reached server timeoutMs
  have hstep : ∃ system, step server s.system .deadline = some system := by
    simp [step, hcalls, harmed]
  obtain ⟨system, hsystem⟩ := hstep
  have hisDue : s.isDue = true := by simp [Timed.isDue, hdue, hdelay, hclock]
  refine ⟨_, hreach.next (show timedStep server timeoutMs s (.event .deadline) = some _ by
    rw [timedStep, if_neg (by simp [hisDue]), hsystem]
    rfl), ?_, ?_⟩
  · simp [hfirst]
  · simp [hforced, hclock]

/-- **The deadline is not early** if and only if the setting fits the runtime's timers. -/
theorem deadline_kept_iff (server : ShutdownServer) (raw : Option JsString) :
    (∀ s, Reachable (timedStep server (shutdownTimeoutMs raw)) .initial s →
      WaitsFor (shutdownTimeoutMs raw) s) ↔ FitsTimer raw := by
  rw [← shutdownTimeoutMs_le_iff]
  constructor
  · intro hall
    by_contra hlarge
    obtain ⟨s, hreach, hfirst, hforced⟩ := @forced_early server _ (Nat.lt_of_not_le hlarge)
    obtain ⟨first, hsignal, hle⟩ := hall s hreach 1 (by simp [hforced])
    unfold TIMEOUT_MAX at hlarge
    omega
  · intro hfits s hreach time htime
    have hset := hreach.invariant initial_timerSet fun _ _ _ => timedStep_timerSet
    obtain ⟨first, hfirst, hle⟩ := hset.forced time htime
    have hdelay := timerDelay_of_le hfits
    exact ⟨first, hfirst, by omega⟩

/-- `SHUTDOWN_TIMEOUT_MS=3000000000` -/
theorem deadline_early : ¬∀ (server : ShutdownServer) (raw : Option JsString) (s : Timed),
    Reachable (timedStep server (shutdownTimeoutMs raw)) .initial s →
    WaitsFor (shutdownTimeoutMs raw) s := by
  intro hall
  have htimeout : shutdownTimeoutMs (some (js "3000000000")) = 3000000000 := by decide +kernel
  obtain ⟨s, hreach, hfirst, hforced⟩ := @forced_early ⟨true⟩
    (shutdownTimeoutMs (some (js "3000000000"))) (by rw [htimeout]; decide)
  obtain ⟨first, hsignal, hle⟩ := hall ⟨true⟩ _ s hreach 1 (by simp [hforced])
  omega

end NewsApi.Runtime.Shutdown
