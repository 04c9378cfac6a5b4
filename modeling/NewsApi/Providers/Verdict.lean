import NewsApi.Providers.GNewsProvider
import NewsApi.Runtime.Watched

/-! # When a search's outcome is decided

The log of a search shows in which state the outcome of its upstream work was
classified: when a response was accepted, or when the handler of a failure
began. What follows is bookkeeping. -/
namespace NewsApi.Providers
open NewsApi.Async NewsApi.Types NewsApi.Errors NewsApi.Runtime

/-- The first command of the handler, or the acceptance of a response. -/
def classifies : Act Command Reply View → Option View
  | .did (.aborted .deadline) _ v _ => some v
  | .did .closeCircuit _ v _ => some v
  | _ => none

def classified : Log → Option View
  | [] => none
  | a :: older => (classified older).or (classifies a)

/-- The client or the process has aborted. -/
def cancelled (v : View) : Bool := v.lo.client || v.sh.shutdown

variable {a : Act Command Reply View} {log newer older : Log} {v : View}

theorem classified_cons_some (h : classified log = some v) : classified (a :: log) = some v := by
  simp [classified, h]

theorem classified_cons_none (h : classified log = none) (ha : classifies a = none) :
    classified (a :: log) = none := by
  simp [classified, h, ha]

theorem classified_cons (h : classified log = none) : classified (a :: log) = classifies a := by
  simp [classified, h]

theorem classified_mem (h : classified log = some v) : ∃ a ∈ log, classifies a = some v := by
  induction log with
  | nil => cases h
  | cons a older ih =>
    rcases Option.or_eq_some_iff.mp h with ho | ⟨-, ha⟩
    · obtain ⟨a', hmem, ha'⟩ := ih ho
      exact ⟨a', List.mem_cons_of_mem a hmem, ha'⟩
    · exact ⟨a, List.mem_cons_self, ha⟩

theorem classified_append : classified (newer ++ older) = (classified older).or (classified newer) := by
  induction newer with
  | nil => simp [classified]
  | cons a newer ih => simp [classified, ih, Option.or_assoc]

theorem classifies_state (h : classifies a = some v) : a.state = v := by
  unfold classifies at h
  split at h <;> cases h <;> rfl

theorem cancelled_request (h : cancelled v = true) : v.aborted .request = true := by
  simp only [View.aborted, Bool.or_eq_true]
  exact .inl (Bool.or_eq_true_iff.mp h)

end NewsApi.Providers
