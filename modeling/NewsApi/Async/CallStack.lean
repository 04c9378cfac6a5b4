import NewsApi.Async.Host

/-! # Nested calls on one thread

Code that calls out may be called back before its call returns. The programs
that wait for the return of such a call form a stack: only the innermost one
can go on, and each runs from one call to the outside to the next. -/
namespace NewsApi.Async

universe u

variable {C : Type} {R : C → Type} {σ : Type u}

structure Thread (C : Type) (R : C → Type) (σ : Type u) where
  state : σ
  /-- the calls in progress, innermost first -/
  calls : List (Prog C R Unit)

namespace Thread
variable (h : Host C R σ)

/-- The innermost program has run to its next call, or to its end. -/
def land (outer : List (Prog C R Unit)) : Prog C R Unit × σ → Thread C R σ
  | (.pure _, s) => ⟨s, outer⟩
  | (p, s) => ⟨s, p :: outer⟩

/-- A call from the outside, before or within another one. -/
def enter (p : Prog C R Unit) (t : Thread C R σ) : Thread C R σ :=
  land t.calls (h.advance p t.state)

/-- The innermost call to the outside returns. -/
def back (answer : (c : C) → Option (R c)) (t : Thread C R σ) : Option (Thread C R σ) :=
  match t.calls with
  | [] => none
  | p :: outer => (h.resume answer p t.state).map (land outer)

variable {h}

/-- A call that returns goes on with its continuation. -/
theorem back_call {answer : (c : C) → Option (R c)} {t : Thread C R σ} {c : C}
    {k : R c → Prog C R Unit} {outer : List (Prog C R Unit)} (ht : t.calls = .call c k :: outer) :
    t.back h answer = (answer c).bind fun r => (h.reply c r t.state).map fun s =>
      enter h (k r) ⟨s, outer⟩ := by
  rw [back, ht]
  simp only [Host.resume]
  cases answer c with
  | none => rfl
  | some r => cases hr : h.reply c r t.state <;> simp [hr, enter]

end Thread

end NewsApi.Async
