import Mathlib.Order.Nat

/-! # Runs of a step function

A system is a partial step function: an event that is impossible in a state
has no successor there. Invariants of runs are proved from one step. -/
namespace NewsApi.Async

universe u v

variable {σ : Type u} {ε : Type v} (step : σ → ε → Option σ)

def run : σ → List ε → Option σ
  | s, [] => some s
  | s, e :: es => (step s e).bind fun s' => run s' es

/-- `s` is reached from `init` by some sequence of events. -/
def Reachable (init s : σ) : Prop := ∃ es, run step init es = some s

variable {step}

theorem run_append (s : σ) (es fs : List ε) :
    run step s (es ++ fs) = (run step s es).bind fun s' => run step s' fs := by
  induction es generalizing s with
  | nil => rfl
  | cons e es ih =>
    simp only [List.cons_append, run]
    cases step s e with
    | none => rfl
    | some s' => exact ih s'

theorem run_next {s s' : σ} {e : ε} (h : step s e = some s') (es : List ε) :
    run step s (e :: es) = run step s' es := by rw [run, h, Option.bind_some]

/-- What every step preserves, every run preserves. -/
theorem run_invariant {P : σ → Prop} (hstep : ∀ s e s', P s → step s e = some s' → P s')
    {s s' : σ} {es : List ε} (hs : P s) (hr : run step s es = some s') : P s' := by
  induction es generalizing s with
  | nil => exact Option.some.inj hr ▸ hs
  | cons e es ih =>
    obtain ⟨s1, h1, h2⟩ := Option.bind_eq_some_iff.mp hr
    exact ih (hstep s e s1 hs h1) h2

/-- What every step of a kind preserves holds at the end of a run of such steps. -/
theorem run_invariant_where {P : σ → Prop} {Q : σ → ε → Prop}
    (hstep : ∀ s e s', P s → Q s e → step s e = some s' → P s') {s s' : σ} {es : List ε}
    (hs : P s) (hok : ∀ before e after t, es = before ++ e :: after →
      run step s before = some t → Q t e)
    (hr : run step s es = some s') : P s' := by
  induction es generalizing s with
  | nil => exact Option.some.inj hr ▸ hs
  | cons e es ih =>
    obtain ⟨s1, h1, h2⟩ := Option.bind_eq_some_iff.mp hr
    refine ih (hstep s e s1 hs (hok [] e es s rfl rfl) h1) (fun before e' after t hes ht => ?_) h2
    refine hok (e :: before) e' after t (by rw [hes, List.cons_append]) ?_
    rw [run_next h1, ht]

theorem Reachable.refl (s : σ) : Reachable step s s := ⟨[], rfl⟩

theorem Reachable.trans {s t u : σ} (h : Reachable step s t) (h' : Reachable step t u) :
    Reachable step s u := by
  obtain ⟨es, he⟩ := h
  obtain ⟨fs, hf⟩ := h'
  exact ⟨es ++ fs, by simp [run_append, he, hf]⟩

theorem Reachable.next {s t u : σ} {e : ε} (h : Reachable step s t) (hs : step t e = some u) :
    Reachable step s u :=
  h.trans ⟨[e], by simp [run, hs]⟩

/-- A run given by its events, for what can be computed of its last state. -/
theorem Reachable.of_run {init : σ} (p : σ → Bool) (es : List ε)
    (h : (run step init es).map p = some true) : ∃ s, Reachable step init s ∧ p s = true := by
  obtain ⟨s, hs, hp⟩ := Option.map_eq_some_iff.mp h
  exact ⟨s, ⟨es, hs⟩, hp⟩

/-- An inductive invariant holds in every reachable state. -/
theorem Reachable.invariant {P : σ → Prop} {init s : σ} (h : Reachable step init s)
    (hinit : P init) (hstep : ∀ s e s', P s → step s e = some s' → P s') : P s := by
  obtain ⟨es, he⟩ := h
  exact run_invariant hstep hinit he

/-! ## Runs under an assumption -/

/-- The runs of which every state satisfies `ok`. -/
def restrict (ok : σ → Bool) (step : σ → ε → Option σ) (s : σ) (e : ε) : Option σ :=
  (step s e).filter ok

theorem restrict_eq_some {ok : σ → Bool} {s s' : σ} {e : ε} :
    restrict ok step s e = some s' ↔ step s e = some s' ∧ ok s' = true :=
  Option.filter_eq_some_iff

/-! ## Infinite runs -/

/-- One event, or nothing. -/
def Moment (step : σ → ε → Option σ) (event : Option ε) (s s' : σ) : Prop :=
  match event with
  | none => s' = s
  | some e => step s e = some s'

structure Execution (step : σ → ε → Option σ) where
  state : Nat → σ
  event : Nat → Option ε
  next : ∀ t, Moment step (event t) (state t) (state (t + 1))

namespace Execution
variable {x : Execution step} {P : σ → Prop} {t u : Nat}

theorem occurred {e : ε} (h : x.event t = some e) :
    step (x.state t) e = some (x.state (t + 1)) := by
  have := x.next t
  rwa [h] at this

theorem next_of (ht : P (x.state t))
    (hstep : ∀ e s', x.event t = some e → step (x.state t) e = some s' → P s') :
    P (x.state (t + 1)) := by
  have hnext := x.next t
  cases he : x.event t with
  | none =>
    rw [he] at hnext
    rwa [show x.state (t + 1) = x.state t from hnext]
  | some e =>
    rw [he] at hnext
    exact hstep e _ he hnext

/-- What every step preserves stays. -/
theorem stays (hstep : ∀ s e s', P s → step s e = some s' → P s') (htu : t ≤ u)
    (ht : P (x.state t)) : P (x.state u) := by
  induction u, htu using Nat.le_induction with
  | base => exact ht
  | succ u _ ih => exact next_of ih fun e s' _ => hstep _ e s' ih

/-- What only the events of `E` can end holds until the first of them. -/
theorem holds_until {E : ε → Prop} (hstep : ∀ s e s', P s → ¬E e → step s e = some s' → P s')
    (htu : t ≤ u) (ht : P (x.state t)) {e : ε} (hu : x.event u = some e) (he : E e) :
    ∃ v ≥ t, P (x.state v) ∧ ∃ e, x.event v = some e ∧ E e := by
  obtain ⟨d, rfl⟩ := Nat.exists_eq_add_of_le htu
  clear htu
  induction d generalizing t with
  | zero => exact ⟨t, Nat.le_refl t, ht, e, hu, he⟩
  | succ d ih =>
    by_cases hnow : ∃ e, x.event t = some e ∧ E e
    · exact ⟨t, Nat.le_refl t, ht, hnow⟩
    · have hnext := next_of ht fun e' s' he' => hstep _ e' s' ht fun hE => hnow ⟨e', he', hE⟩
      obtain ⟨v, hv, h⟩ := ih hnext (by rwa [Nat.add_right_comm])
      exact ⟨v, by omega, h⟩

/-- What only the events of `E` can end holds at one of them, where they occur
as long as it holds. -/
theorem ends_at {E : ε → Prop} (hstep : ∀ s e s', P s → ¬E e → step s e = some s' → P s')
    (hfair : (∀ u ≥ t, P (x.state u)) → ∃ u ≥ t, ∃ e, x.event u = some e ∧ E e)
    (ht : P (x.state t)) : ∃ u ≥ t, P (x.state u) ∧ ∃ e, x.event u = some e ∧ E e := by
  obtain ⟨u, htu, e, hu, he⟩ : ∃ u ≥ t, ∃ e, x.event u = some e ∧ E e := by
    by_contra hnone
    refine hnone (hfair fun u htu => ?_)
    induction u, htu using Nat.le_induction with
    | base => exact ht
    | succ u htu ih =>
      exact next_of ih fun e s' he => hstep _ e s' ih fun hE => hnone ⟨u, htu, e, he, hE⟩
  exact holds_until hstep htu ht hu he

/-- An entry of a queue comes to its head, where the queue is served as long as
it has entries: by induction on the entries before it. -/
theorem turn {κ : Type*} {queue : σ → List κ} {E : ε → Prop}
    (hkeep : ∀ s e s', ¬E e → step s e = some s' → queue s <+: queue s')
    (htake : ∀ s e s', E e → step s e = some s' → queue s' = (queue s).tail)
    (hfair : ∀ t, (∀ u ≥ t, queue (x.state u) ≠ []) → ∃ u ≥ t, ∃ e, x.event u = some e ∧ E e)
    {k : κ} (hk : k ∈ queue (x.state t)) :
    ∃ u ≥ t, (queue (x.state u)).head? = some k ∧ ∃ e, x.event u = some e ∧ E e := by
  obtain ⟨before, after, hqueue⟩ := List.append_of_mem hk
  clear hk
  induction before generalizing t after with
  | nil =>
    have hstep : ∀ s e s', (queue s).head? = some k → ¬E e → step s e = some s' →
        (queue s').head? = some k := by
      intro s e s' hs he hnext
      obtain ⟨new, hnew⟩ := hkeep s e s' he hnext
      simp [← hnew, List.head?_append, hs]
    refine ends_at hstep (fun hall => hfair t fun u htu hnil => ?_) (by simp [hqueue])
    simpa [hnil] using hall u htu
  | cons first before ih =>
    have hstep : ∀ s e s', (∃ rest, queue s = first :: before ++ k :: rest) → ¬E e →
        step s e = some s' → ∃ rest, queue s' = first :: before ++ k :: rest := by
      rintro s e s' ⟨rest, hs⟩ he hnext
      obtain ⟨new, hnew⟩ := hkeep s e s' he hnext
      exact ⟨rest ++ new, by simp [← hnew, hs]⟩
    obtain ⟨u, htu, ⟨rest, hu⟩, e, hevent, he⟩ :=
      ends_at hstep (fun hall => hfair t fun u htu hnil => by
        obtain ⟨rest, hu⟩ := hall u htu
        simp [hnil] at hu) ⟨after, hqueue⟩
    have hnext := htake _ e _ he (occurred hevent)
    obtain ⟨v, huv, hv⟩ := ih rest (by rw [hnext, hu]; rfl)
    exact ⟨v, by omega, hv⟩

end Execution

/-- The states of a run, which stays in its last one. -/
def play (step : σ → ε → Option σ) : σ → List ε → Nat → σ
  | s, e :: es, t + 1 => play step ((step s e).getD s) es t
  | s, _, _ => s

theorem play_next {s : σ} {es : List ε} (h : (run step s es).isSome = true) (t : Nat) :
    Moment step es[t]? (play step s es t) (play step s es (t + 1)) := by
  induction es generalizing s t with
  | nil => rfl
  | cons e es ih =>
    obtain ⟨last, hlast⟩ := Option.isSome_iff_exists.mp h
    obtain ⟨s1, h1, h2⟩ := Option.bind_eq_some_iff.mp hlast
    cases t with
    | zero => simp [Moment, play, h1]
    | succ t => simpa [play, h1] using ih (Option.isSome_iff_exists.mpr ⟨last, h2⟩) t

/-- A run that is over. -/
def Execution.ofRun (s : σ) (es : List ε) (h : (run step s es).isSome = true) :
    Execution step where
  state := play step s es
  event t := es[t]?
  next := play_next h

end NewsApi.Async
