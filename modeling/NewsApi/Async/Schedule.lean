import Mathlib.Order.Filter.AtTopBot.Basic
import Mathlib.Order.Filter.Finite
import NewsApi.Async.Run

/-! # Schedules, parts of a system, and what stays

Any sequence of events makes an execution, in which the events that are
impossible are passed over. An execution of a system is one of its parts too. -/
namespace NewsApi.Async

universe u v u' v'

variable {σ : Type u} {ε : Type v} {τ : Type u'} {ι : Type v'} (step : σ → ε → Option σ)

/-- The states of a schedule. -/
def scheduled (s : σ) (schedule : Nat → ε) : Nat → σ
  | 0 => s
  | t + 1 => (step (scheduled s schedule t) (schedule t)).getD (scheduled s schedule t)

variable {step}

def Execution.ofSchedule (s : σ) (schedule : Nat → ε) : Execution step where
  state := scheduled step s schedule
  event t := if (step (scheduled step s schedule t) (schedule t)).isSome then some (schedule t)
    else none
  next t := by
    cases h : step (scheduled step s schedule t) (schedule t) with
    | none => simp [Moment, scheduled, h]
    | some s' => simp [Moment, scheduled, h]

theorem Execution.scheduled_event {s : σ} {schedule : Nat → ε} {t : Nat} {e : ε}
    (h : (ofSchedule s schedule : Execution step).event t = some e) : e = schedule t := by
  simp only [ofSchedule] at h
  split at h <;> cases h
  rfl

/-- What is seen of an execution in a part of the system. -/
def Execution.project {step' : τ → ι → Option τ} (x : Execution step) (view : σ → τ)
    (part : σ → ε → Option ι)
    (h : ∀ s e s', step s e = some s' → Moment step' (part s e) (view s) (view s')) :
    Execution step' where
  state t := view (x.state t)
  event t := (x.event t).bind (part (x.state t))
  next t := by
    have hnext := x.next t
    cases he : x.event t with
    | none =>
      rw [he] at hnext
      exact congrArg view hnext
    | some e =>
      rw [he] at hnext
      exact h _ e _ hnext

/-- What every step preserves holds for good once it holds. -/
theorem Execution.eventually {x : Execution step} {P : σ → Prop} {t : Nat}
    (hstep : ∀ s e s', P s → step s e = some s' → P s') (ht : P (x.state t)) :
    ∀ᶠ u in Filter.atTop, P (x.state u) :=
  Filter.eventually_atTop.mpr ⟨t, fun _ htu => stays hstep htu ht⟩

end NewsApi.Async
