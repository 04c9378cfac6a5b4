import NewsApi.Async.Run
import NewsApi.Runtime.CombineSignals

/-! # Runs with combined signals

A process whose other code creates and aborts controllers, combines signals and
listens to them in any order, also while an event is dispatched. -/
namespace NewsApi.Runtime.Cancellation
open NewsApi.Async

variable {active : List Nat} {c : Nat}

structure Process where
  signals : Signals Listener
  /-- the controllers that other code holds -/
  held : List Nat

inductive Event where
  | controller
  | any (signals : List Nat)
  | combine (hasAny : Bool) (signals : List (Option Nat))
  | abort (controller : Nat)
  | listen (signal id : Nat)
  | unlisten (signal id : Nat)
  /-- the next step of the dispatches in progress -/
  | dispatch

def Process.initial : Process := ⟨.empty, []⟩

/-- Signals are used once they exist. -/
def step (p : Process) : Event → Option Process
  | .controller => some ⟨p.signals.controller, p.signals.next :: p.held⟩
  | .any signals =>
    if ∀ i ∈ signals, i < p.signals.next then some { p with signals := p.signals.any signals }
    else none
  | .combine hasAny signals =>
    if ∀ i ∈ signals.reduceOption, i < p.signals.next then
      some { p with signals := (combineAbortSignals hasAny signals p.signals).2 }
    else none
  | .abort controller =>
    if controller ∈ p.held then some { p with signals := p.signals.abort controller } else none
  | .listen signal id =>
    if signal < p.signals.next then
      some { p with signals := p.signals.addEventListener signal (.other id) }
    else none
  | .unlisten signal id =>
    some { p with signals := p.signals.removeEventListener signal (.other id) }
  | .dispatch => (p.signals.perform callback).map fun signals => { p with signals }

/-- What a step does, by its event. -/
inductive Steps (p : Process) : Event → Process → Prop where
  | controller : Steps p .controller ⟨p.signals.controller, p.signals.next :: p.held⟩
  | any {signals : List Nat} (exist : ∀ i ∈ signals, i < p.signals.next) :
    Steps p (.any signals) { p with signals := p.signals.any signals }
  | combine {hasAny : Bool} {signals : List (Option Nat)}
    (exist : ∀ i ∈ signals.reduceOption, i < p.signals.next) :
    Steps p (.combine hasAny signals)
      { p with signals := (combineAbortSignals hasAny signals p.signals).2 }
  | abort {controller : Nat} (held : controller ∈ p.held) :
    Steps p (.abort controller) { p with signals := p.signals.abort controller }
  | listen {signal id : Nat} (exist : signal < p.signals.next) :
    Steps p (.listen signal id)
      { p with signals := p.signals.addEventListener signal (.other id) }
  | unlisten {signal id : Nat} : Steps p (.unlisten signal id)
      { p with signals := p.signals.removeEventListener signal (.other id) }
  | dispatch {signals : Signals Listener} (performed : p.signals.perform callback = some signals) :
    Steps p .dispatch { p with signals }

theorem step_cases {p q : Process} {event : Event} (h : step p event = some q) :
    Steps p event q := by
  cases event with
  | controller =>
    cases h
    exact .controller
  | any signals =>
    simp only [step, Option.ite_none_right_eq_some, Option.some.injEq] at h
    obtain ⟨hexist, rfl⟩ := h
    exact .any hexist
  | combine hasAny signals =>
    simp only [step, Option.ite_none_right_eq_some, Option.some.injEq] at h
    obtain ⟨hexist, rfl⟩ := h
    exact .combine hexist
  | abort controller =>
    simp only [step, Option.ite_none_right_eq_some, Option.some.injEq] at h
    obtain ⟨hheld, rfl⟩ := h
    exact .abort hheld
  | listen signal id =>
    simp only [step, Option.ite_none_right_eq_some, Option.some.injEq] at h
    obtain ⟨hexists, rfl⟩ := h
    exact .listen hexists
  | unlisten signal id =>
    cases h
    exact .unlisten
  | dispatch =>
    simp only [step, Option.map_eq_some_iff] at h
    obtain ⟨signals, hperformed, rfl⟩ := h
    exact .dispatch hperformed

/-! ## What every process keeps -/

structure Sound (p : Process) : Prop where
  valid : p.signals.Valid
  held_lt : ∀ i ∈ p.held, i < p.signals.next
  closures : Closures p.signals
  hidden : ∀ a c, p.signals.Knows (.abort a c) → c ∉ p.held

theorem initial_sound : Sound .initial where
  valid := Signals.empty_valid
  held_lt i hi := by cases hi
  closures a c h := by
    rcases h with ⟨i, hi⟩ | ⟨i, hi⟩ <;> cases hi
  hidden a c _ hc := by cases hc

/-- A step that knows no new closure, and no controller of an old one. -/
theorem Sound.of_knows {p q : Process} (h : Sound p) (hvalid : q.signals.Valid)
    (hnext : p.signals.next ≤ q.signals.next) (hheld : q.held = p.held)
    (hknows : ∀ a c, q.signals.Knows (.abort a c) → p.signals.Knows (.abort a c)) : Sound q where
  valid := hvalid
  held_lt i hi := (h.held_lt i (hheld ▸ hi)).trans_le hnext
  closures a c hk := ⟨(h.closures a c (hknows a c hk)).1.trans_le hnext,
    (h.closures a c (hknows a c hk)).2⟩
  hidden a c hk := by
    rw [hheld]
    exact h.hidden a c (hknows a c hk)

theorem step_sound {p q : Process} {event : Event} (h : Sound p) (hstep : step p event = some q) :
    Sound q := by
  cases step_cases hstep with
  | controller =>
    refine ⟨h.valid.create (.inl rfl), ?_, ?_, ?_⟩
    · intro i hi
      rcases List.mem_cons.mp hi with rfl | hi
      · exact Nat.lt_succ_self _
      · exact (h.held_lt i hi).trans (Nat.lt_succ_self _)
    · intro a c hk
      obtain ⟨hlt, hlength⟩ := h.closures a c hk.of_create
      exact ⟨hlt.trans (Nat.lt_succ_self _), hlength⟩
    · intro a c hk hc
      rcases List.mem_cons.mp hc with rfl | hc
      · exact Nat.lt_irrefl _ (h.closures a _ hk.of_create).1
      · exact h.hidden a c hk.of_create hc
  | any _ => exact h.of_knows (h.valid.any _) (Nat.le_succ _) rfl fun a c hk => hk.of_create
  | @combine hasAny signals hexist =>
    obtain ⟨hvalid, hnext, hknows⟩ := combineAbortSignals_knows h.valid hasAny hexist
    refine ⟨hvalid, fun i hi => (h.held_lt i hi).trans_le hnext, ?_, ?_⟩
    · intro a c hk
      rcases hknows a c hk with hold | ⟨-, hlt, hlength⟩
      · exact ⟨(h.closures a c hold).1.trans_le hnext, (h.closures a c hold).2⟩
      · exact ⟨hlt, hlength⟩
    · intro a c hk hc
      rcases hknows a c hk with hold | ⟨rfl, -, -⟩
      · exact h.hidden a c hold hc
      · exact Nat.lt_irrefl _ (h.held_lt _ hc)
  | abort _ => exact h.of_knows (h.valid.abort _) (by simp) rfl fun a c hk => hk.of_abort
  | listen _ =>
    exact h.of_knows (h.valid.addEventListener _ _) (Nat.le_refl _) rfl
      fun a c hk => hk.of_addEventListener (by simp)
  | unlisten =>
    exact h.of_knows (h.valid.removeEventListener _ _) (Nat.le_refl _) rfl
      fun a c hk => hk.of_removeEventListener
  | dispatch hperformed =>
    exact h.of_knows (h.valid.perform callback_valid hperformed)
      (Signals.later_perform callback_later hperformed).next_le rfl
      fun a c hk => hk.of_perform (fun _ _ _ => knows_of_callback) hperformed

/-- The controller of a combination stays with its closure. -/
theorem step_combined {p q : Process} {event : Event} (hsound : Sound p)
    (h : Combined p.signals active c) (hc : c ∉ p.held) (hstep : step p event = some q) :
    Combined q.signals active c ∧ c ∉ q.held := by
  cases step_cases hstep with
  | controller => exact ⟨h.create hsound.valid _, by simp [hc, h.lt.ne]⟩
  | any _ => exact ⟨h.create hsound.valid _, hc⟩
  | @combine hasAny signals hexist =>
    refine ⟨?_, hc⟩
    have hother : ∀ a, Listener.abort signals.reduceOption p.signals.next ≠ .abort a c :=
      fun a he => h.lt.ne (Listener.abort.inj he).2.symm
    have hcreated : Combined p.signals.controller active c := h.create hsound.valid _
    rcases @combineAbortSignals_cases _ hsound.valid hasAny signals hexist with ⟨-, he⟩ |
      ⟨signal, -, he⟩ | ⟨-, -, he⟩ | ⟨-, -, -, he⟩ | ⟨-, -, -, he⟩ <;> rw [he]
    · exact hcreated
    · exact h
    · exact h.create hsound.valid _
    · exact hcreated.otherCallback (hsound.valid.create (.inl rfl)) hother
    · exact hcreated.addAll _ hother
  | abort hheld => exact ⟨h.abort hsound.valid fun he => hc (he ▸ hheld), hc⟩
  | listen _ => exact ⟨h.addEventListener _ (by simp), hc⟩
  | unlisten => exact ⟨h.removeEventListener _ (by simp), hc⟩
  | dispatch hperformed => exact ⟨h.dispatch hsound.valid hperformed, hc⟩

theorem step_later {p q : Process} {event : Event} (h : Sound p) (hstep : step p event = some q) :
    p.signals.Later q.signals := by
  cases step_cases hstep with
  | controller => exact h.valid.later_create _
  | any _ => exact h.valid.later_create _
  | combine hexist => exact combineAbortSignals_later h.valid _ hexist
  | abort _ => exact Signals.later_abort _ _
  | listen _ => exact Signals.later_of_same rfl rfl rfl
  | unlisten => exact Signals.later_of_same rfl rfl rfl
  | dispatch hperformed => exact Signals.later_perform callback_later hperformed

/-! ## Whole runs -/

theorem reachable_later {p q : Process} (h : Sound p) (hq : Reachable step p q) :
    Sound q ∧ p.signals.Later q.signals := by
  refine hq.invariant (P := fun t => Sound t ∧ p.signals.Later t.signals) ⟨h, .refl _⟩ ?_
  intro s event t hs hstep
  exact ⟨step_sound hs.1 hstep, hs.2.trans (step_later hs.1 hstep)⟩

theorem reachable_combined {p q : Process} (h : Sound p) (hc : Combined p.signals active c)
    (hheld : c ∉ p.held) (hq : Reachable step p q) : Combined q.signals active c := by
  have hall := hq.invariant (P := fun t => Sound t ∧ Combined t.signals active c ∧ c ∉ t.held)
    ⟨h, hc, hheld⟩ fun s event t hs hstep =>
      ⟨step_sound hs.1 hstep, step_combined hs.1 hs.2.1 hs.2.2 hstep⟩
  exact hall.2.1

/-- The dispatches in progress come to an end, when no other code intervenes. -/
theorem dispatch_ends {p : Process} (h : Sound p) :
    ∃ q, Reachable step p q ∧ q.signals.pending = [] := by
  cases hstep : p.signals.perform callback with
  | none => exact ⟨p, .refl p, Signals.perform_none hstep⟩
  | some t =>
    have hdispatch : step p .dispatch = some { p with signals := t } := by simp [step, hstep]
    have hless := Signals.perform_decreases h.valid callback_alive hstep
    obtain ⟨q, hq, hidle⟩ := dispatch_ends (step_sound h hdispatch)
    exact ⟨q, ((Reachable.refl p).next hdispatch).trans hq, hidle⟩
termination_by (p.signals.alive, p.signals.unfired, p.signals.pending.length)
decreasing_by simpa [Prod.lex_def] using hless

/-- `result` is aborted at the moments at which `native` is, where a moment is one
between the dispatches of the inputs' events, and it is never ahead. It aborts
once and leaves no listener. -/
structure SameAsAny (p q : Process) (active : List Nat) (native result : Nat) : Prop where
  only : q.signals.aborted result = true → q.signals.aborted native = true
  same : (∀ i ∈ active, q.signals.Idle i) →
    q.signals.aborted result = q.signals.aborted native
  atOnce : (∃ i ∈ active, p.signals.aborted i = true) → q.signals.aborted result = true
  once : q.signals.fired.count result ≤ 1
  event : active.length ≠ 1 → q.signals.Idle result →
    q.signals.fired.count result = (q.signals.aborted result).toNat
  removed : q.signals.aborted result = true →
    ∀ i, .abort active result ∉ q.signals.listeners i

theorem fired_le_one {p : Process} (h : Sound p) (i : Nat) : p.signals.fired.count i ≤ 1 := by
  have hle := h.valid.fires_le i
  have hflag := Bool.toNat_le (p.signals.aborted i)
  unfold Signals.fires at hle
  omega

theorem Combined.sameAsAny {p q : Process} {native : Nat} (h : Combined q.signals active c)
    (hsound : Sound q) (hnative : q.signals.aborted native = active.any q.signals.aborted)
    (hatOnce : (∃ i ∈ active, p.signals.aborted i = true) → q.signals.aborted c = true) :
    SameAsAny p q active native c where
  only ha := by
    rw [hnative]
    exact List.any_eq_true.mpr (h.source ha)
  same hidle := by
    rw [hnative]
    cases ha : q.signals.aborted c with
    | true => exact (List.any_eq_true.mpr (h.source ha)).symm
    | false =>
      refine (List.any_eq_false.mpr fun i hi hia => ?_).symm
      rcases (h.waiting ha i hi).2 hia with hfire | hcall
      · exact (hidle i hi).1 hfire
      · exact (hidle i hi).2 _ hcall
  atOnce := hatOnce
  once := fired_le_one hsound c
  event _ hidle := (Signals.fires_of_idle hidle).symm.trans (hsound.valid.fires_own c h.root)
  removed := h.cleared

/-- **The fallback equals `AbortSignal.any`**, for every list of signals and
whatever the process does before and after. -/
theorem fallback_same_as_any {p q : Process} (hp : Reachable step .initial p)
    {signals : List (Option Nat)} (hexist : ∀ i ∈ signals.reduceOption, i < p.signals.next)
    (hq : Reachable step { p with signals :=
      (combineAbortSignals false signals (p.signals.any signals.reduceOption)).2 } q) :
    SameAsAny p q signals.reduceOption p.signals.next
      (combineAbortSignals false signals (p.signals.any signals.reduceOption)).1 := by
  have hsound := (reachable_later initial_sound hp).1
  obtain ⟨p', hp', rfl⟩ : ∃ p' : Process, step p (.any signals.reduceOption) = some p' ∧
      { p with signals := p.signals.any signals.reduceOption } = p' :=
    ⟨_, if_pos hexist, rfl⟩
  have hsound' := step_sound hsound hp'
  have hlater := step_later hsound hp'
  have hexist' : ∀ i ∈ signals.reduceOption, i < (p.signals.any signals.reduceOption).next :=
    fun i hi => (hexist i hi).trans_le hlater.next_le
  have hcombine : step { p with signals := p.signals.any signals.reduceOption }
      (.combine false signals) = some { p with signals :=
        (combineAbortSignals false signals (p.signals.any signals.reduceOption)).2 } :=
    if_pos hexist'
  have hcombined := step_sound hsound' hcombine
  obtain ⟨hq', hafter⟩ := reachable_later hcombined hq
  have hall := (step_later hsound' hcombine).trans hafter
  have hnative := hall.aborted_any hsound.valid hexist
  by_cases hlength : signals.reduceOption.length = 1
  · obtain ⟨signal, hone⟩ := List.length_eq_one_iff.mp hlength
    have hresult : (combineAbortSignals false signals
        (p.signals.any signals.reduceOption)).1 = signal := by
      unfold combineAbortSignals
      rw [hone]
    have hsame : q.signals.aborted p.signals.next = q.signals.aborted signal := by
      rw [hnative, hone]
      simp
    rw [hresult, hone]
    refine ⟨by simp [hsame], fun _ => hsame.symm, ?_, fired_le_one hq' signal, by simp, ?_⟩
    · intro hany
      have hsignal : p.signals.aborted signal = true := by simpa using hany
      exact (hlater.trans hall).aborted signal (hexist signal (by simp [hone])) hsignal
    · intro _ i hi
      have hlength := (hq'.closures _ _ (.inl ⟨i, hi⟩)).2
      simp at hlength
  · obtain ⟨hresult, hstart, hatOnce⟩ :=
      fallback_combined hsound'.valid hsound'.closures hexist' hlength
    rw [hresult]
    have hheld : (p.signals.any signals.reduceOption).next ∉ p.held :=
      fun hmem => Nat.lt_irrefl _ (hsound'.held_lt _ hmem)
    refine (reachable_combined hcombined hstart hheld hq).sameAsAny hq' hnative fun hany => ?_
    obtain ⟨i, hi, ha⟩ := hany
    have haborted := hatOnce ⟨i, hi, hlater.aborted i (hexist i hi) ha⟩
    exact hafter.aborted _ hstart.lt haborted

/-- Of four optional signals one is undefined and two are the same, which aborts. -/
theorem fallback_same_as_any_twice : ∃ p q : Process, SameAsAny p q [0, 1, 0] 2 3 ∧
    q.signals.aborted 3 = true ∧ q.signals.pending = [] := by
  have hsame := @fallback_same_as_any _ _ ⟨[.controller, .controller], rfl⟩
    [some 0, none, some 1, some 0] (by decide)
    ⟨[.abort 0, .dispatch, .dispatch, .dispatch, .dispatch], rfl⟩
  exact ⟨_, _, hsame, rfl, rfl⟩

end NewsApi.Runtime.Cancellation
