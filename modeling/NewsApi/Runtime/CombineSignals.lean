import Mathlib.Data.List.ReduceOption
import NewsApi.Async.AbortDispatch

/-! # Combined abort signals

`combineAbortSignals` without `AbortSignal.any`: a controller that the closure
`abort` of the call aborts, and what every operation on signals keeps of it. -/
namespace NewsApi.Runtime.Cancellation
open NewsApi.Async

/-- A listener of an `abort` event: the closure `abort` of a combination, which
is its own by its controller, or one of other code. -/
inductive Listener where
  | abort (active : List Nat) (controller : Nat)
  | other (id : Nat)
  deriving DecidableEq

/-- The call of a listener. What other code does then is steps of its own. -/
def callback : Listener → Signals Listener → Signals Listener
  | .abort active controller, s => (s.removeAll active (.abort active controller)).abort controller
  | .other _, s => s

/-- The returned signal beside the signals after the call; `hasAny` is whether
`AbortSignal.any` is a function. -/
def combineAbortSignals (hasAny : Bool) (signals : List (Option Nat)) (s : Signals Listener) :
    Nat × Signals Listener :=
  let active := signals.reduceOption
  match active with
  | [] => (s.next, s.controller)
  | [signal] => (signal, s)
  | _ =>
    if hasAny then (s.next, s.any active)
    else
      let controller := s.next
      let abort := Listener.abort active controller
      let s := s.controller
      if active.any s.aborted then (controller, callback abort s)
      else (controller, s.addAll active abort)

/-! ## A combination and its closure -/

variable {s : Signals Listener} {active : List Nat} {c : Nat}

/-- The controller of a combination is known to its closure only. -/
structure Private (s : Signals Listener) (active : List Nat) (c : Nat) : Prop where
  lt : c < s.next
  inputs_lt : ∀ i ∈ active, i < s.next
  root : s.roots c = [c]
  closure : ∀ a, s.Knows (.abort a c) → a = active
  inputs : ∀ i, .abort active c ∈ s.listeners i → i ∈ active

/-- The signal of a combination was aborted by one of its inputs, and its
closure is removed; or the closure listens on each input, and its call is due
where the input is aborted. -/
structure Combined (s : Signals Listener) (active : List Nat) (c : Nat) : Prop
    extends Private s active c where
  source : s.aborted c = true → ∃ i ∈ active, s.aborted i = true
  cleared : s.aborted c = true → ∀ i, .abort active c ∉ s.listeners i
  waiting : s.aborted c = false → ∀ i ∈ active, .abort active c ∈ s.listeners i ∧
    (s.aborted i = true → .fire i ∈ s.pending ∨ .call i (.abort active c) ∈ s.pending)

/-! ### What other code does -/

theorem Private.create (h : Private s active c) (roots : List Nat) :
    Private (s.create roots) active c where
  lt := h.lt.trans (Nat.lt_succ_self _)
  inputs_lt i hi := (h.inputs_lt i hi).trans (Nat.lt_succ_self _)
  root := by simp [Signals.create, h.lt.ne, h.root]
  closure a ha := h.closure a ha.of_create
  inputs i hi := by
    by_cases he : i = s.next
    · simp [Signals.create, he] at hi
    · exact h.inputs i (by simpa [Signals.create, he] using hi)

theorem Private.abort (h : Private s active c) (controller : Nat) :
    Private (s.abort controller) active c where
  lt := by simpa using h.lt
  inputs_lt := by simpa using h.inputs_lt
  root := by simpa using h.root
  closure a ha := h.closure a ha.of_abort
  inputs := by simpa using h.inputs

theorem Combined.create (h : Combined s active c) (hvalid : s.Valid) (roots : List Nat) :
    Combined (s.create roots) active c := by
  have hc := Signals.aborted_create hvalid h.lt.ne roots
  have hinput : ∀ i ∈ active, (s.create roots).aborted i = s.aborted i ∧
      (s.create roots).listeners i = s.listeners i := by
    intro i hi
    have hne := (h.inputs_lt i hi).ne
    exact ⟨Signals.aborted_create hvalid hne roots, by simp [Signals.create, hne]⟩
  refine ⟨h.toPrivate.create roots, ?_, ?_, ?_⟩
  · intro ha
    obtain ⟨i, hi, hiaborted⟩ := h.source (hc ▸ ha)
    exact ⟨i, hi, (hinput i hi).1 ▸ hiaborted⟩
  · intro ha i hmem
    have hi := (h.toPrivate.create roots).inputs i hmem
    rw [(hinput i hi).2] at hmem
    exact h.cleared (hc ▸ ha) i hmem
  · intro ha i hi
    rw [(hinput i hi).1, (hinput i hi).2]
    exact h.waiting (hc ▸ ha) i hi

theorem Private.withListeners (h : Private s active c) {listeners : Nat → List Listener}
    (hsub : ∀ i a, .abort a c ∈ listeners i → .abort a c ∈ s.listeners i) :
    Private { s with listeners } active c where
  lt := h.lt
  inputs_lt := h.inputs_lt
  root := h.root
  closure a ha := by
    rcases ha with ⟨i, hi⟩ | hcall
    · exact h.closure a (.inl ⟨i, hsub i a hi⟩)
    · exact h.closure a (.inr hcall)
  inputs i hi := h.inputs i (hsub i active hi)

/-- Other listeners come and go. -/
theorem Combined.withListeners (h : Combined s active c) {listeners : Nat → List Listener}
    (hsame : ∀ i a, .abort a c ∈ listeners i ↔ .abort a c ∈ s.listeners i) :
    Combined { s with listeners } active c where
  toPrivate := h.toPrivate.withListeners fun i a => (hsame i a).mp
  source := h.source
  cleared ha i hmem := h.cleared ha i ((hsame i active).mp hmem)
  waiting ha i hi := ⟨(hsame i active).mpr (h.waiting ha i hi).1, (h.waiting ha i hi).2⟩

theorem Combined.addEventListener (h : Combined s active c) (signal : Nat) {l : Listener}
    (hother : ∀ a, l ≠ .abort a c) : Combined (s.addEventListener signal l) active c := by
  refine h.withListeners fun i a => Signals.mem_addEventListener.trans ?_
  simp [(hother a).symm]

theorem Combined.removeEventListener (h : Combined s active c) (signal : Nat) {l : Listener}
    (hother : ∀ a, l ≠ .abort a c) : Combined (s.removeEventListener signal l) active c := by
  refine h.withListeners fun i a => Signals.mem_removeEventListener.trans ?_
  simp [(hother a).symm]

theorem Combined.addAll (h : Combined s active c) (signals : List Nat) {l : Listener}
    (hother : ∀ a, l ≠ .abort a c) : Combined (s.addAll signals l) active c := by
  induction signals generalizing s with
  | nil => exact h
  | cons i rest ih => exact ih (h.addEventListener i hother)

/-- Another controller aborts, and perhaps inputs with it. -/
theorem Combined.abort (h : Combined s active c) (hvalid : s.Valid) {controller : Nat}
    (hne : controller ≠ c) : Combined (s.abort controller) active c := by
  have hc : (s.abort controller).aborted c = s.aborted c := by
    simp [Signals.aborted_abort, h.root, hne]
  refine ⟨h.toPrivate.abort controller, ?_, ?_, ?_⟩
  · intro ha
    obtain ⟨i, hi, hiaborted⟩ := h.source (hc ▸ ha)
    exact ⟨i, hi, by simp [Signals.aborted_abort, hiaborted]⟩
  · intro ha
    simpa using h.cleared (hc ▸ ha)
  · intro ha i hi
    obtain ⟨hlistens, hdue⟩ := h.waiting (hc ▸ ha) i hi
    refine ⟨by simpa using hlistens, fun hafter => ?_⟩
    cases hbefore : s.aborted i with
    | false => exact .inl (Signals.fire_mem_abort hvalid hbefore hafter)
    | true =>
      have hsub := Signals.pending_subset_abort controller s
      exact (hdue hbefore).imp (fun hfire => hsub hfire) fun hcall => hsub hcall

/-! ### The dispatches -/

theorem callback_aborts (h : s.roots c = [c]) :
    (callback (.abort active c) s).aborted c = true := by
  simp [callback, Signals.aborted_abort, Signals.removeAll_eq, h]

/-- The call of a closure, and where it finds an input already aborted. -/
theorem Private.ownCallback (h : Private s active c)
    (hsource : ∃ i ∈ active, s.aborted i = true) :
    Combined (callback (.abort active c) s) active c := by
  have hprivate : Private (s.removeAll active (.abort active c)) active c := by
    have hkeep := h.withListeners fun i a hi =>
      ((@Signals.mem_removeAll _ _ active (.abort active c) _ _ _).mp hi).1
    rwa [Signals.removeAll_eq] at hkeep ⊢
  refine ⟨hprivate.abort c, ?_, ?_, ?_⟩
  · intro _
    obtain ⟨i, hi, ha⟩ := hsource
    refine ⟨i, hi, ?_⟩
    rw [callback, Signals.aborted_abort, Signals.removeAll_eq]
    exact Bool.or_eq_true_iff.mpr (.inl ha)
  · intro _ i hmem
    rw [callback, Signals.abort_listeners] at hmem
    obtain ⟨hold, hnot⟩ := Signals.mem_removeAll.mp hmem
    exact hnot (h.inputs i hold) rfl
  · intro hwaits
    rw [callback_aborts h.root] at hwaits
    cases hwaits

/-- The closure starts to listen while no input is aborted. -/
theorem Private.listens (h : Private s active c) (hc : s.aborted c = false)
    (hinputs : ∀ i ∈ active, s.aborted i = false) :
    Combined (s.addAll active (.abort active c)) active c := by
  have hfields := Signals.addAll_eq active (.abort active c) s
  have haborted : (s.addAll active (.abort active c)).aborted = s.aborted := by rw [hfields]; rfl
  refine ⟨⟨?_, ?_, ?_, ?_, ?_⟩, ?_, ?_, ?_⟩
  · rw [hfields]
    exact h.lt
  · rw [hfields]
    exact h.inputs_lt
  · rw [hfields]
    exact h.root
  · intro a ha
    rcases ha.of_addAll with hnew | hold
    · exact (Listener.abort.inj hnew).1
    · exact h.closure a hold
  · intro i hi
    rcases Signals.mem_addAll.mp hi with hold | ⟨hactive, -⟩
    · exact h.inputs i hold
    · exact hactive
  · simp [haborted, hc]
  · simp [haborted, hc]
  · intro _ i hi
    exact ⟨Signals.mem_addAll.mpr (.inr ⟨hi, rfl⟩), by simp [haborted, hinputs i hi]⟩

theorem Combined.otherCallback (h : Combined s active c) (hvalid : s.Valid) {l : Listener}
    (hother : ∀ a, l ≠ .abort a c) : Combined (callback l s) active c := by
  cases l with
  | other id => exact h
  | abort a controller =>
    have hne : controller ≠ c := fun he => hother a (he ▸ rfl)
    have hkept : Combined (s.removeAll a (.abort a controller)) active c := by
      have hkeep := h.withListeners fun i a' => (@Signals.mem_removeAll _ _ a
        (.abort a controller) (.abort a' c) s i).trans (and_iff_left_of_imp fun _ _ he =>
          hother a' he.symm)
      rwa [Signals.removeAll_eq] at hkeep ⊢
    exact hkept.abort (hvalid.removeAll a _) hne

theorem Private.called (h : Private s active c) {i : Nat} {l : Listener}
    {rest : List (Pending Listener)} (hpending : s.pending = .call i l :: rest) :
    Private { s with pending := rest } active c where
  lt := h.lt
  inputs_lt := h.inputs_lt
  root := h.root
  closure a ha := by
    rcases ha with hi | ⟨j, hcall⟩
    · exact h.closure a (.inl hi)
    · exact h.closure a (.inr ⟨j, by simp [hpending, hcall]⟩)
  inputs := h.inputs

/-- A call that does not concern the closure, or comes after its removal. -/
theorem Combined.called (h : Combined s active c) {i : Nat} {l : Listener}
    {rest : List (Pending Listener)} (hpending : s.pending = .call i l :: rest)
    (hnot : l = .abort active c → l ∉ s.listeners i) :
    Combined { s with pending := rest } active c := by
  refine ⟨h.toPrivate.called hpending, h.source, h.cleared, ?_⟩
  intro ha j hj
  obtain ⟨hlistens, hdue⟩ := h.waiting ha j hj
  refine ⟨hlistens, fun hjaborted => ?_⟩
  have hpend := hdue hjaborted
  simp only [hpending, List.mem_cons] at hpend
  rcases hpend with (hfire | hfire) | (hcall | hcall)
  · cases hfire
  · exact .inl hfire
  · cases hcall
    exact absurd hlistens (hnot rfl)
  · exact .inr hcall

theorem Combined.fire (h : Combined s active c) {i : Nat} {rest : List (Pending Listener)}
    (hpending : s.pending = .fire i :: rest) : Combined { s with
      pending := (s.listeners i).map (.call i) ++ rest, fired := i :: s.fired } active c where
  lt := h.lt
  inputs_lt := h.inputs_lt
  root := h.root
  closure a ha := by
    rcases ha with hlistens | ⟨j, hcall⟩
    · exact h.closure a (.inl hlistens)
    · rcases List.mem_append.mp hcall with hnew | hold
      · obtain ⟨l, hl, he⟩ := List.mem_map.mp hnew
        cases he
        exact h.closure a (.inl ⟨i, hl⟩)
      · exact h.closure a (.inr ⟨j, by simp [hpending, hold]⟩)
  inputs := h.inputs
  source := h.source
  cleared := h.cleared
  waiting ha j hj := by
    obtain ⟨hlistens, hdue⟩ := h.waiting ha j hj
    refine ⟨hlistens, fun hjaborted => ?_⟩
    have hpend := hdue hjaborted
    simp only [hpending, List.mem_cons] at hpend
    rcases hpend with (hfire | hfire) | (hcall | hcall)
    · cases hfire
      exact .inr (List.mem_append_left _ (List.mem_map_of_mem hlistens))
    · exact .inl (List.mem_append_right _ hfire)
    · cases hcall
    · exact .inr (List.mem_append_right _ hcall)

/-- A step of the dispatches, whether it calls the closure or not. -/
theorem Combined.dispatch (h : Combined s active c) (hvalid : s.Valid) {t : Signals Listener}
    (hstep : s.perform callback = some t) : Combined t active c := by
  rcases Signals.perform_cases hstep with ⟨i, rest, hpending, rfl⟩ |
    ⟨i, l, rest, hpending, hnot, rfl⟩ | ⟨i, l, rest, hpending, hlistens, rfl⟩
  · exact h.fire hpending
  · exact h.called hpending fun _ => hnot
  · by_cases hown : ∃ a, l = .abort a c
    · obtain ⟨a, rfl⟩ := hown
      obtain rfl := h.closure a (.inl ⟨i, hlistens⟩)
      refine Private.ownCallback ((h.toPrivate.called hpending).withListeners fun j a hj => ?_) ?_
      · exact (Signals.mem_removeEventListener.mp hj).1
      · exact ⟨i, h.inputs i hlistens, hvalid.calls i (.abort a c) (by simp [hpending])⟩
    · have hother : ∀ a, l ≠ .abort a c := fun a he => hown ⟨a, he⟩
      exact ((h.called hpending fun he => absurd he (hother _)).removeEventListener i
        hother).otherCallback ((hvalid.called hpending).removeEventListener i l) hother

/-! ## What a call of `combineAbortSignals` does -/

/-- The branches of `combineAbortSignals`, by the signals that are defined. -/
theorem combineAbortSignals_cases (hvalid : s.Valid) {hasAny : Bool}
    {signals : List (Option Nat)} (hexist : ∀ i ∈ signals.reduceOption, i < s.next) :
    (signals.reduceOption = [] ∧ combineAbortSignals hasAny signals s = (s.next, s.controller)) ∨
    (∃ signal, signals.reduceOption = [signal] ∧
      combineAbortSignals hasAny signals s = (signal, s)) ∨
    (2 ≤ signals.reduceOption.length ∧ hasAny = true ∧
      combineAbortSignals hasAny signals s = (s.next, s.any signals.reduceOption)) ∨
    (2 ≤ signals.reduceOption.length ∧ hasAny = false ∧
      (∃ i ∈ signals.reduceOption, s.aborted i = true) ∧ combineAbortSignals hasAny signals s =
        (s.next, callback (.abort signals.reduceOption s.next) s.controller)) ∨
    (2 ≤ signals.reduceOption.length ∧ hasAny = false ∧
      (∀ i ∈ signals.reduceOption, s.aborted i = false) ∧ combineAbortSignals hasAny signals s =
        (s.next, s.controller.addAll signals.reduceOption
          (.abort signals.reduceOption s.next))) := by
  have hsame : ∀ i ∈ signals.reduceOption, s.controller.aborted i = s.aborted i :=
    fun i hi => Signals.aborted_create hvalid (hexist i hi).ne _
  unfold combineAbortSignals
  generalize signals.reduceOption = active at hsame
  dsimp only
  split
  · simp
  · simp
  · rename_i hnil hsingle
    have hlength : 2 ≤ active.length := by
      match active with
      | [] => exact absurd rfl hnil
      | [signal] => exact absurd rfl (hsingle signal)
      | _ :: _ :: _ => simp
    cases hasAny with
    | true => simp [hlength]
    | false =>
      by_cases ha : active.any s.controller.aborted = true
      · obtain ⟨i, hi, hia⟩ := List.any_eq_true.mp ha
        exact .inr (.inr (.inr (.inl ⟨hlength, rfl, ⟨i, hi, hsame i hi ▸ hia⟩, by simp [ha]⟩)))
      · refine .inr (.inr (.inr (.inr ⟨hlength, rfl, ?_, by simp [ha]⟩)))
        intro i hi
        cases hia : s.aborted i with
        | false => rfl
        | true => exact absurd (List.any_eq_true.mpr ⟨i, hi, (hsame i hi).trans hia⟩) ha

theorem callback_valid (l : Listener) (s : Signals Listener) (h : s.Valid) :
    (callback l s).Valid := by
  cases l with
  | other id => exact h
  | abort active controller => exact (h.removeAll active _).abort controller

theorem callback_later (l : Listener) (s : Signals Listener) : s.Later (callback l s) := by
  cases l with
  | other id => exact .refl s
  | abort active controller =>
    exact (Signals.later_removeAll active _ s).trans (Signals.later_abort controller _)

theorem knows_of_callback {l l' : Listener} (h : (callback l s).Knows l') : s.Knows l' := by
  cases l with
  | other id => exact h
  | abort active controller => exact h.of_abort.of_removeAll

theorem callback_alive (l : Listener) (s : Signals Listener) (h : s.Valid) :
    (callback l s).alive < s.alive ∨
      (callback l s).alive = s.alive ∧ (callback l s).pending = s.pending := by
  cases l with
  | other id => exact .inr ⟨rfl, rfl⟩
  | abort active controller =>
    have habort := Signals.alive_abort (h.removeAll active (.abort active controller)) controller
    have hsame : (s.removeAll active (.abort active controller)).alive = s.alive ∧
        (s.removeAll active (.abort active controller)).pending = s.pending := by
      rw [Signals.removeAll_eq]
      exact ⟨rfl, rfl⟩
    rwa [hsame.1, hsame.2] at habort

/-- Closures have controllers of their own, and at least two inputs. -/
def Closures (s : Signals Listener) : Prop :=
  ∀ a c, s.Knows (.abort a c) → c < s.next ∧ 2 ≤ a.length

theorem controller_private (hclosures : Closures s) (hexist : ∀ i ∈ active, i < s.next) :
    Private s.controller active s.next where
  lt := Nat.lt_succ_self _
  inputs_lt i hi := (hexist i hi).trans (Nat.lt_succ_self _)
  root := by simp [Signals.controller, Signals.create]
  closure a ha := absurd (hclosures a _ ha.of_create).1 (Nat.lt_irrefl _)
  inputs i hi := absurd (hclosures active _ (Signals.Knows.of_create (.inl ⟨i, hi⟩))).1
    (Nat.lt_irrefl _)

theorem controller_combined (hclosures : Closures s) :
    Combined s.controller [] s.next := by
  refine ⟨controller_private hclosures (by simp), ?_, ?_, ?_⟩ <;> simp

/-- The fallback, whether an input is aborted already or not. -/
theorem fallback_combined (hvalid : s.Valid) (hclosures : Closures s)
    {signals : List (Option Nat)} (hexist : ∀ i ∈ signals.reduceOption, i < s.next)
    (hlength : signals.reduceOption.length ≠ 1) :
    (combineAbortSignals false signals s).1 = s.next ∧
      Combined (combineAbortSignals false signals s).2 signals.reduceOption s.next ∧
      ((∃ i ∈ signals.reduceOption, s.aborted i = true) →
        (combineAbortSignals false signals s).2.aborted s.next = true) := by
  have hprivate := controller_private hclosures hexist
  have hsame : ∀ i ∈ signals.reduceOption, s.controller.aborted i = s.aborted i :=
    fun i hi => Signals.aborted_create hvalid (hexist i hi).ne _
  rcases @combineAbortSignals_cases s hvalid false signals hexist with ⟨hnil, he⟩ |
    ⟨signal, hone, -⟩ | ⟨-, hany, -⟩ | ⟨-, -, ⟨i, hi, ha⟩, he⟩ | ⟨-, -, hnone, he⟩
  · rw [he, hnil]
    exact ⟨rfl, controller_combined hclosures, by simp⟩
  · rw [hone] at hlength
    exact absurd rfl hlength
  · cases hany
  · rw [he]
    exact ⟨rfl, hprivate.ownCallback ⟨i, hi, (hsame i hi).trans ha⟩,
      fun _ => callback_aborts hprivate.root⟩
  · rw [he]
    refine ⟨rfl, hprivate.listens (Signals.aborted_controller s) fun i hi => ?_, fun hany => ?_⟩
    · rw [hsame i hi, hnone i hi]
    · obtain ⟨i, hi, ha⟩ := hany
      rw [hnone i hi] at ha
      cases ha

theorem combineAbortSignals_later (hvalid : s.Valid) (hasAny : Bool)
    {signals : List (Option Nat)} (hexist : ∀ i ∈ signals.reduceOption, i < s.next) :
    s.Later (combineAbortSignals hasAny signals s).2 := by
  have hcreated : s.Later s.controller := hvalid.later_create _
  rcases @combineAbortSignals_cases s hvalid hasAny signals hexist with ⟨-, he⟩ |
    ⟨signal, -, he⟩ | ⟨-, -, he⟩ | ⟨-, -, -, he⟩ | ⟨-, -, -, he⟩ <;> rw [he]
  · exact hcreated
  · exact .refl s
  · exact hvalid.later_create _
  · exact hcreated.trans (callback_later (.abort signals.reduceOption s.next) _)
  · exact hcreated.trans (Signals.later_addAll _ _ _)

/-- A call makes at most one closure, with a controller of its own. -/
theorem combineAbortSignals_knows (hvalid : s.Valid) (hasAny : Bool)
    {signals : List (Option Nat)} (hexist : ∀ i ∈ signals.reduceOption, i < s.next) :
    (combineAbortSignals hasAny signals s).2.Valid ∧
      s.next ≤ (combineAbortSignals hasAny signals s).2.next ∧
      ∀ a c, (combineAbortSignals hasAny signals s).2.Knows (.abort a c) →
        s.Knows (.abort a c) ∨
          c = s.next ∧ c < (combineAbortSignals hasAny signals s).2.next ∧ 2 ≤ a.length := by
  have hcreated : s.controller.Valid := hvalid.create (.inl rfl)
  rcases @combineAbortSignals_cases s hvalid hasAny signals hexist with ⟨-, he⟩ |
    ⟨signal, -, he⟩ | ⟨-, -, he⟩ | ⟨hlength, -, -, he⟩ | ⟨hlength, -, -, he⟩ <;> rw [he]
  · exact ⟨hcreated, Nat.le_succ _, fun a c hk => .inl hk.of_create⟩
  · exact ⟨hvalid, Nat.le_refl _, fun a c hk => .inl hk⟩
  · exact ⟨hvalid.any _, Nat.le_succ _, fun a c hk => .inl hk.of_create⟩
  · have hlater := callback_later (.abort signals.reduceOption s.next) s.controller
    exact ⟨callback_valid (.abort signals.reduceOption s.next) _ hcreated,
      (Nat.le_succ _).trans hlater.next_le, fun a c hk => .inl (knows_of_callback hk).of_create⟩
  · have hfields := Signals.addAll_eq signals.reduceOption
      (.abort signals.reduceOption s.next) s.controller
    have hnext : s.next < (s.controller.addAll signals.reduceOption
        (.abort signals.reduceOption s.next)).next := by
      rw [hfields]
      exact Nat.lt_succ_self _
    refine ⟨hcreated.addAll _ _, hnext.le, fun a c hk => ?_⟩
    rcases hk.of_addAll with hnew | hold
    · cases hnew
      exact .inr ⟨rfl, hnext, hlength⟩
    · exact .inl hold.of_create

end NewsApi.Runtime.Cancellation
