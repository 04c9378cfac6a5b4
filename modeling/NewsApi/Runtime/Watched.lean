import NewsApi.Async.Run
import NewsApi.Async.Trace
import NewsApi.Runtime.JobHost

/-! # One program under observation

A program of the process with the log of what it did. Whatever may happen
around it is an incident: its command is answered, a signal aborts, its
deadline fires, time passes, other searches leave the circuit in some state. -/
namespace NewsApi.Runtime
open NewsApi.Async NewsApi.Config NewsApi.Errors NewsApi.Providers

abbrev Log := List (Act Command Reply View)

abbrev Scene := Traced Command Reply View

structure Watched (α : Type) : Type 1 where
  scene : Scene
  prog : Prog Command Reply (Except JsError α)

inductive Incident where
  | resume (answer : (c : Command) → Option (Reply c))
  | disconnect
  | shutdown
  | deadline
  | elapse (ms : Nat)
  | others (circuit : CircuitState)

namespace Watched
variable {α β : Type} (settings : Settings) (honest : Bool)

/-- The program runs up to its first suspension at once. -/
def start (x : Job α) (v : View) : Watched α :=
  let next := (jobHost settings honest).traced.advance x.run ⟨v, []⟩
  ⟨next.2, next.1⟩

@[simp] theorem start_prog (x : Job α) (v : View) : (start settings honest x v).prog =
    ((jobHost settings honest).traced.advance x.run ⟨v, []⟩).1 := rfl

def setView (w : Watched α) (v : View) : Watched α := { w with scene := w.scene.setState v }

/-- What an incident in which the program does not run makes of its view. -/
def meanwhile (v : View) : Incident → Option View
  | .resume _ => none
  | .disconnect => some { v with lo.client := true }
  | .shutdown => some { v with sh.shutdown := true }
  | .deadline => (fireDeadline v.sh.clock v.lo).map fun lo => { v with lo := lo }
  | .elapse ms => some { v with sh.clock := v.sh.clock + ms }
  | .others circuit => some { v with sh.circuit := circuit }

def step (w : Watched α) : Incident → Option (Watched α)
  | .resume answer => ((jobHost settings honest).traced.resume answer w.prog w.scene).map
      fun next => ⟨next.2, next.1⟩
  | incident => (meanwhile w.scene.state incident).map w.setView

variable {settings honest} {w w' : Watched α} {incident : Incident}

theorem step_cases (h : step settings honest w incident = some w') :
    (∃ answer, incident = .resume answer ∧
      (jobHost settings honest).traced.resume answer w.prog w.scene = some (w'.prog, w'.scene)) ∨
    ∃ v, meanwhile w.scene.state incident = some v ∧ w' = w.setView v := by
  cases incident with
  | resume answer =>
    obtain ⟨next, hr, rfl⟩ := Option.map_eq_some_iff.mp h
    exact .inl ⟨answer, rfl, hr⟩
  | deadline =>
    obtain ⟨v, hv, rfl⟩ := Option.map_eq_some_iff.mp h
    exact .inr ⟨v, hv, rfl⟩
  | disconnect | shutdown | elapse ms | others circuit =>
    cases h
    exact .inr ⟨_, rfl, rfl⟩

/-- A signal stays aborted. -/
structure Kept (v v' : View) : Prop where
  client : v.lo.client = true → v'.lo.client = true
  shutdown : v.sh.shutdown = true → v'.sh.shutdown = true

theorem kept_meanwhile {v v' : View} (h : meanwhile v incident = some v') : Kept v v' := by
  cases incident with
  | resume answer => cases h
  | disconnect => cases h; exact ⟨fun _ => rfl, id⟩
  | shutdown => cases h; exact ⟨id, fun _ => rfl⟩
  | deadline =>
    obtain ⟨lo, hlo, rfl⟩ := Option.map_eq_some_iff.mp h
    have hclient : lo.client = v.lo.client := by
      unfold fireDeadline at hlo
      split at hlo
      · cases hlo
      · split at hlo <;> cases hlo
        rfl
    exact ⟨fun hc => hclient.trans hc, id⟩
  | elapse ms => cases h; exact ⟨id, id⟩
  | others circuit => cases h; exact ⟨id, id⟩

theorem kept_now {v v' : View} {c : Command} {r : Reply c} (h : now settings c v = some (r, v')) :
    Kept v v' := by
  cases c <;> simp only [now, Option.some.injEq, Prod.mk.injEq, reduceCtorEq] at h <;>
    obtain ⟨-, rfl⟩ := h <;> exact ⟨id, id⟩

theorem kept_issue (c : Command) (v : View) : Kept v (issue c v) := by
  cases c <;> exact ⟨id, id⟩

theorem kept_reply {v v' : View} {c : Command} {r : Reply c} (h : reply honest c r v = some v') :
    Kept v v' := by
  unfold reply at h
  split at h
  · cases h; exact ⟨id, id⟩
  · split at h
    · split at h <;> cases h
      exact ⟨id, id⟩
    · cases h
  · split at h <;> cases h
    exact ⟨id, id⟩
  · cases h; exact ⟨id, id⟩

/-- What the aborted signals keep holds of all that is done from then on. -/
theorem since_step {P : View → Prop} (hP : ∀ {v v'}, Kept v v' → P v → P v')
    (h : step settings honest w incident = some w') : Host.Since P w.scene w'.scene := by
  rcases step_cases h with ⟨answer, -, hr⟩ | ⟨v, hv, rfl⟩
  · exact Host.since_resume (fun _ _ _ _ hn => hP (kept_now hn)) (fun c v => hP (kept_issue c v))
      (fun _ _ _ _ hr => hP (kept_reply hr)) hr
  · exact ⟨hP (kept_meanwhile hv), [], rfl, fun _ _ => nofun⟩

theorem since_of_reachable {P : View → Prop} (hP : ∀ {v v'}, Kept v v' → P v → P v')
    (h : Reachable (step settings honest) w w') : Host.Since P w.scene w'.scene :=
  h.invariant (P := fun w' => Host.Since P w.scene w'.scene) (.refl _)
    fun _ _ _ hs hstep => hs.trans (since_step hP hstep)

/-! ## Rules -/

section
variable {K : Contract Scene} {c : Command} {t : Scene}

/-- A command answered within the step, before the rest of the block. -/
theorem wp_ask {v : View} {r : Reply c} {f : Reply c → Job α} {Q : Except JsError α → Scene → Prop}
    (hn : now settings c t.state = some (r, v))
    (hq : (jobHost settings honest).traced.wp K (f r).run Q ⟨v, .did c r t.state v :: t.log⟩) :
    (jobHost settings honest).traced.wp K (ask c >>= f).run Q t := by
  rw [Host.wp_run_bind, ask, Host.wp_run_lift]
  exact Host.wp_did hn hq

/-- A command that suspends the program. -/
theorem wp_await {Q : Reply c → Scene → Prop} (hn : now settings c t.state = none)
    (hi : K.inv ⟨issue c t.state, .sent c t.state :: t.log⟩)
    (hq : ∀ t', K.rely ⟨issue c t.state, .sent c t.state :: t.log⟩ t' → K.inv t' →
      ∀ r v, reply honest c r t'.state = some v → Q r ⟨v, .answered c r v :: t'.log⟩) :
    (jobHost settings honest).traced.wp K (command c) Q t :=
  Host.wp_sent hn hi hq

theorem wp_throwIfAborted {signal : Signal} {Q : Except JsError Unit → Scene → Prop}
    (hq : Q (if t.state.aborted signal then .error .requestAborted else .ok ())
      ⟨t.state, .did (.aborted signal) (t.state.aborted signal) t.state t.state :: t.log⟩) :
    (jobHost settings honest).traced.wp K (throwIfAborted signal).run Q t := by
  refine wp_ask rfl ?_
  cases h : t.state.aborted signal <;> simpa [h] using hq

/-- A span waits one turn after its operation has settled. -/
theorem wp_withSpan {operation : Job α} {Q : Except JsError α → Scene → Prop}
    (h : (jobHost settings honest).traced.wp K operation.run (fun r t =>
      K.inv ⟨t.state, .sent .tick t.state :: t.log⟩ ∧
      ∀ t', K.rely ⟨t.state, .sent .tick t.state :: t.log⟩ t' → K.inv t' →
        Q r ⟨t'.state, .answered .tick () t'.state :: t'.log⟩) t) :
    (jobHost settings honest).traced.wp K (withSpan operation).run Q t := by
  simp only [withSpan, Host.wp_run_bind, Host.wp_run_attempt, Host.afterOk_ok]
  refine Host.wp_mono h fun r t1 h1 => ?_
  rw [ask, Host.wp_run_lift]
  refine wp_await (c := .tick) rfl h1.1 fun t2 h2 h3 r2 v hr => ?_
  cases hr
  exact h1.2 t2 h2 h3

end

/-! ## Runs -/

variable (settings honest) in
/-- What is known of a watched program. -/
structure Sound (K : Contract Scene) (F : Except JsError α → Scene → Prop) (w : Watched α) :
    Prop where
  inv : K.inv w.scene
  parked : (jobHost settings honest).traced.parked K F w.prog w.scene

section
variable {K : Contract Scene} {F : Except JsError α → Scene → Prop}

theorem sound_start {x : Job α} {v : View}
    (h : (jobHost settings honest).traced.wp K x.run (fun r t => K.inv t ∧ F r t) ⟨v, []⟩) :
    Sound settings honest K F (start settings honest x v) := by
  obtain ⟨hi, hp⟩ := Host.advance_sound h
  exact ⟨hi, hp⟩

/-- What is known is kept, if what others do is within the contract. -/
theorem Sound.step (h : Sound settings honest K F w)
    (hstep : Watched.step settings honest w incident = some w')
    (hrely : ∀ v, meanwhile w.scene.state incident = some v → K.rely w.scene (w.scene.setState v) ∧
      K.inv (w.scene.setState v) ∧ (∀ r, F r w.scene → F r (w.scene.setState v)) ∧
      (K.atLoop w.scene → K.atLoop (w.scene.setState v))) :
    Sound settings honest K F w' := by
  rcases step_cases hstep with ⟨answer, -, hr⟩ | ⟨v, hv, rfl⟩
  · obtain ⟨hi, hp⟩ := Host.resume_sound h.inv h.parked hr
    exact ⟨hi, hp⟩
  · obtain ⟨hr, hi, hF, hl⟩ := hrely v hv
    exact ⟨hi, Host.parked_rely h.parked hr hF hl⟩

end

/-! ## Watched programs that end -/

def Ended (w : Watched α) : Prop := ∃ r, w.prog = .pure r

/-- A program that has not ended is resumed. -/
def Fair (x : Execution (step (α := α) settings honest)) : Prop :=
  ∀ t, ¬Ended (x.state t) → ∃ u ≥ t, ∃ answer, x.event u = some (.resume answer)

section
variable {x : Execution (step (α := α) settings honest)} {P : Watched α → Prop} {t : Nat}

/-- A program that has not ended stays where it is until it is resumed. -/
theorem resumed (hx : Fair x) (hP : ∀ w i w', P w → step settings honest w i = some w' → P w')
    (ht : P (x.state t)) (hrun : ¬Ended (x.state t)) :
    ∃ u ≥ t, P (x.state u) ∧ (x.state u).prog = (x.state t).prog ∧
      ∃ answer, x.event u = some (.resume answer) := by
  obtain ⟨u, htu, answer, hu⟩ := hx t hrun
  have hstep : ∀ w i w', (P w ∧ w.prog = (x.state t).prog) → ¬(∃ answer, i = .resume answer) →
      step settings honest w i = some w' → P w' ∧ w'.prog = (x.state t).prog := by
    intro w i w' hw hother hs
    refine ⟨hP w i w' hw.1 hs, ?_⟩
    rcases step_cases hs with ⟨answer, hi, -⟩ | ⟨v, -, rfl⟩
    · exact absurd ⟨answer, hi⟩ hother
    · exact hw.2
  obtain ⟨v, htv, hw, i, hv, answer, rfl⟩ :=
    Execution.holds_until hstep htu ⟨ht, rfl⟩ hu ⟨answer, rfl⟩
  exact ⟨v, htv, hw.1, hw.2, answer, hv⟩

theorem resume_occurred {answer : (c : Command) → Option (Reply c)}
    (h : x.event t = some (.resume answer)) :
    (jobHost settings honest).traced.resume answer (x.state t).prog (x.state t).scene =
      some ((x.state (t + 1)).prog, (x.state (t + 1)).scene) := by
  rcases step_cases (Execution.occurred h) with ⟨answer', hi, hr⟩ | ⟨v, hv, -⟩
  · cases hi
    exact hr
  · cases hv

/-- A program ends unless it comes to a loop: by induction on what is left of
it, which every answer shortens. -/
theorem ends (hx : Fair x) (hP : ∀ w i w', P w → step settings honest w i = some w' → P w')
    (hloop : ∀ t β γ body b k, P (x.state t) →
      (x.state t).prog = @Prog.iter _ _ _ β γ body b k → ∃ u ≥ t, Ended (x.state u))
    (ht : P (x.state t)) : ∃ u ≥ t, Ended (x.state u) := by
  generalize hp : (x.state t).prog = p
  have hacc := Host.acc_resumes (h := (jobHost settings honest).traced) p
  induction hacc generalizing t with
  | intro p _ ih =>
    cases p with
    | pure r => exact ⟨t, Nat.le_refl t, r, hp⟩
    | iter body b k => exact hloop t _ _ body b k ht hp
    | call c k =>
      have hrun : ¬Ended (x.state t) := by
        intro ⟨r, hr⟩
        cases hp.symm.trans hr
      obtain ⟨u, htu, hu, hprog, answer, hev⟩ := resumed hx hP ht hrun
      have hr := resume_occurred hev
      rw [hprog, hp] at hr
      obtain ⟨n, hn, hend⟩ := ih _ ⟨answer, c, k, _, _, rfl, hr⟩
        (hP _ _ _ hu (Execution.occurred hev)) rfl
      exact ⟨n, by omega, hend⟩

end

end Watched

end NewsApi.Runtime
