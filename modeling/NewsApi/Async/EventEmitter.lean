import Mathlib.Data.List.Nodup
import Mathlib.Logic.Function.Basic

/-! # Event emitters

An emitter calls the listeners of an event in the order of their registration,
those of the moment of the emission. Emissions nest: a listener may emit an
event, whose listeners then come first. -/
namespace NewsApi.Async

universe u v

/-- A listener as it was registered. `once` registers a wrapper. -/
structure Registration (κ : Type v) where
  id : Nat
  listener : κ
  once : Bool
deriving DecidableEq

structure Emitter (ε : Type u) (κ : Type v) where
  listeners : ε → List (Registration κ)
  /-- registrations are numbered -/
  next : Nat
  /-- the wrappers that have been called -/
  fired : List (Registration κ)
  /-- the events being emitted, with the calls still to make, innermost first -/
  emissions : List (ε × List (Registration κ))

namespace Emitter

variable {ε : Type u} {κ : Type v}

def empty : Emitter ε κ := ⟨fun _ => [], 0, [], []⟩

/-- Removal searches from the end and takes one entry. -/
def eraseLast {α : Type*} (p : α → Bool) (xs : List α) : List α := (xs.reverse.eraseP p).reverse

variable [DecidableEq ε]

def add (event : ε) (listener : κ) (once : Bool) (s : Emitter ε κ) : Emitter ε κ := { s with
  listeners := Function.update s.listeners event
    (s.listeners event ++ [⟨s.next, listener, once⟩])
  next := s.next + 1 }

def once (event : ε) (listener : κ) (s : Emitter ε κ) : Emitter ε κ := s.add event listener true

def remove (event : ε) (p : Registration κ → Bool) (s : Emitter ε κ) : Emitter ε κ := { s with
  listeners := Function.update s.listeners event (eraseLast p (s.listeners event)) }

variable [DecidableEq κ]

def off (event : ε) (listener : κ) (s : Emitter ε κ) : Emitter ε κ :=
  s.remove event fun r => r.listener = listener

omit [DecidableEq ε] [DecidableEq κ] in
def emit (event : ε) (s : Emitter ε κ) : Emitter ε κ :=
  { s with emissions := (event, s.listeners event) :: s.emissions }

/-- The innermost emission ends early: a listener threw. -/
def abandon (s : Emitter ε κ) : Option (Emitter ε κ) :=
  match s.emissions with
  | [] => none
  | _ :: outer => some { s with emissions := outer }

/-- The next step of the emissions in progress, and the listener that it calls.
A wrapper removes itself before it calls its listener, and calls it once. -/
def dispatch (s : Emitter ε κ) : Option (Option κ × Emitter ε κ) :=
  match s.emissions with
  | [] => none
  | (_, []) :: outer => some (none, { s with emissions := outer })
  | (event, r :: rest) :: outer =>
    let s := { s with emissions := (event, rest) :: outer }
    if !r.once then some (some r.listener, s)
    else if r ∈ s.fired then some (none, s)
    else some (some r.listener,
      { s.remove event fun other => other = r with fired := r :: s.fired })

/-- What a step of the emissions in progress does. -/
inductive Dispatches (s : Emitter ε κ) : Option κ → Emitter ε κ → Prop where
  | finished {event : ε} {outer : List (ε × List (Registration κ))}
    (emissions : s.emissions = (event, []) :: outer) :
    Dispatches s none { s with emissions := outer }
  | spent {event : ε} {r : Registration κ} {rest : List (Registration κ)}
    {outer : List (ε × List (Registration κ))}
    (emissions : s.emissions = (event, r :: rest) :: outer) (fired : r ∈ s.fired) :
    Dispatches s none { s with emissions := (event, rest) :: outer }
  | called {event : ε} {r : Registration κ} {rest : List (Registration κ)}
    {outer : List (ε × List (Registration κ))}
    (emissions : s.emissions = (event, r :: rest) :: outer) (once : r.once = false) :
    Dispatches s (some r.listener) { s with emissions := (event, rest) :: outer }
  | wrapped {event : ε} {r : Registration κ} {rest : List (Registration κ)}
    {outer : List (ε × List (Registration κ))}
    (emissions : s.emissions = (event, r :: rest) :: outer) (fired : r ∉ s.fired) :
    Dispatches s (some r.listener) { s.remove event fun other => other = r with
      emissions := (event, rest) :: outer
      fired := r :: s.fired }

theorem dispatch_cases {s t : Emitter ε κ} {called : Option κ}
    (h : s.dispatch = some (called, t)) : Dispatches s called t := by
  unfold dispatch at h
  split at h
  · cases h
  · rename_i event outer hemissions
    cases h
    exact .finished hemissions
  · rename_i event r rest outer hemissions
    simp only [Bool.not_eq_true'] at h
    split at h
    · rename_i hon
      cases h
      exact .called hemissions hon
    · split at h
      · rename_i hfired
        cases h
        exact .spent hemissions hfired
      · rename_i hfired
        cases h
        exact .wrapped hemissions hfired

theorem dispatch_over {s : Emitter ε κ} {event : ε} {outer : List (ε × List (Registration κ))}
    (h : s.emissions = (event, []) :: outer) :
    s.dispatch = some (none, { s with emissions := outer }) := by
  simp [dispatch, h]

/-- The next listener is called, unless it is a wrapper that has been called. -/
theorem dispatch_next {s : Emitter ε κ} {event : ε} {r : Registration κ}
    {rest : List (Registration κ)} {outer : List (ε × List (Registration κ))}
    (h : s.emissions = (event, r :: rest) :: outer) :
    ∃ called t, s.dispatch = some (called, t) ∧ t.emissions = (event, rest) :: outer ∧
      (called = some r.listener ∨ called = none ∧ r ∈ s.fired) := by
  unfold dispatch
  rw [h]
  dsimp only
  split
  · exact ⟨_, _, rfl, rfl, .inl rfl⟩
  · split
    · rename_i hfired
      exact ⟨_, _, rfl, rfl, .inr ⟨rfl, hfired⟩⟩
    · exact ⟨_, _, rfl, rfl, .inl rfl⟩

/-! ## The listeners of a kind -/

section
variable {α β : Type*}

/-- What `f` reads off the listeners of an event. -/
def heard (f : κ → Option β) (event : ε) (s : Emitter ε κ) : List β :=
  (s.listeners event).filterMap fun r => f r.listener

theorem eraseLast_cases (p : α → Bool) (xs : List α) :
    ((∀ x ∈ xs, p x = false) ∧ eraseLast p xs = xs) ∨
      ∃ before a after, xs = before ++ a :: after ∧ p a = true ∧
        eraseLast p xs = before ++ after := by
  by_cases hany : ∃ x ∈ xs, p x = true
  · obtain ⟨x, hx, hp⟩ := hany
    obtain ⟨a, after, before, -, ha, hsplit, herase⟩ :=
      List.exists_of_eraseP (List.mem_reverse.mpr hx) hp
    refine .inr ⟨before.reverse, a, after.reverse, ?_, ha, ?_⟩
    · rw [← xs.reverse_reverse, hsplit]
      simp
    · simp [eraseLast, herase]
  · have hnone : ∀ x ∈ xs, p x = false := fun x hx =>
      Bool.eq_false_iff.mpr fun hp => hany ⟨x, hx, hp⟩
    refine .inl ⟨hnone, ?_⟩
    rw [eraseLast, List.eraseP_of_forall_not (by simpa using hnone), List.reverse_reverse]

theorem filter_ne_of_not_mem [DecidableEq β] {xs : List β} {b : β} (h : b ∉ xs) :
    xs.filter (fun other => other ≠ b) = xs :=
  List.filter_eq_self.mpr fun _ ho => decide_eq_true (ne_of_mem_of_not_mem ho h)

/-- One entry is removed, or there was none. -/
theorem filterMap_eraseLast [DecidableEq β] {f : α → Option β} {p : α → Bool} {b : β}
    {xs : List α} (hp : ∀ x, p x = true → f x = some b) (hnodup : (xs.filterMap f).Nodup) :
    ((∀ x ∈ xs, p x = false) ∧ (eraseLast p xs).filterMap f = xs.filterMap f) ∨
      (eraseLast p xs).filterMap f = (xs.filterMap f).filter fun other => other ≠ b := by
  rcases eraseLast_cases p xs with ⟨hnone, he⟩ | ⟨before, a, after, rfl, ha, he⟩
  · exact .inl ⟨hnone, by rw [he]⟩
  · refine .inr ?_
    rw [List.filterMap_append, List.filterMap_cons_some (hp a ha)] at hnodup
    obtain ⟨hbefore, hafter⟩ : b ∉ before.filterMap f ∧ b ∉ after.filterMap f := by
      have hmiddle := List.nodup_middle.mp hnodup
      simpa using (List.nodup_cons.mp hmiddle).1
    rw [he, List.filterMap_append, List.filterMap_append, List.filterMap_cons_some (hp a ha),
      List.filter_append, List.filter_cons_of_neg (by simp), filter_ne_of_not_mem hbefore,
      filter_ne_of_not_mem hafter]

theorem filterMap_eraseLast_none {f : α → Option β} {p : α → Bool} {xs : List α}
    (hp : ∀ x, p x = true → f x = none) : (eraseLast p xs).filterMap f = xs.filterMap f := by
  rcases eraseLast_cases p xs with ⟨-, he⟩ | ⟨before, a, after, rfl, ha, he⟩
  · rw [he]
  · rw [he, List.filterMap_append, List.filterMap_append, List.filterMap_cons_none (hp a ha)]

variable {s t : Emitter ε κ} {f : κ → Option β} {k : κ} {b : β} {called : Option κ}

omit [DecidableEq κ] in
theorem heard_add (f : κ → Option β) (event : ε) (k : κ) (once : Bool) (s : Emitter ε κ)
    (e : ε) : (s.add event k once).heard f e =
      if e = event then s.heard f e ++ (f k).toList else s.heard f e := by
  by_cases he : e = event
  · subst he
    cases hk : f k <;> simp [heard, add, hk]
  · simp [heard, add, he]

omit [DecidableEq κ] in
theorem heard_remove_none {p : Registration κ → Bool} (hp : ∀ r, p r = true → f r.listener = none)
    (event e : ε) : (s.remove event p).heard f e = s.heard f e := by
  by_cases he : e = event
  · subst he
    simp [heard, remove, filterMap_eraseLast_none hp]
  · simp [heard, remove, he]

theorem heard_off_none (hk : f k = none) (event e : ε) :
    (s.off event k).heard f e = s.heard f e := by
  refine heard_remove_none (fun r hr => ?_) event e
  rwa [of_decide_eq_true hr]

variable [DecidableEq β]

omit [DecidableEq κ] in
theorem heard_remove {p : Registration κ → Bool}
    (hp : ∀ r, p r = true → f r.listener = some b) {event : ε}
    (hnodup : (s.heard f event).Nodup) (e : ε) :
    (s.remove event p).heard f e = s.heard f e ∨
      (s.remove event p).heard f e = (s.heard f e).filter fun other => other ≠ b := by
  by_cases he : e = event
  · subst he
    simp only [heard, remove, Function.update_self]
    exact (filterMap_eraseLast hp hnodup).imp_left And.right
  · exact .inl (by simp [heard, remove, he])

/-- A listener that is the only one of its kind is gone once it is removed. -/
theorem heard_off (hk : f k = some b) (hf : ∀ k', f k' = some b → k' = k) {event : ε}
    (hnodup : (s.heard f event).Nodup) (e : ε) : (s.off event k).heard f e =
      if e = event then (s.heard f e).filter fun other => other ≠ b else s.heard f e := by
  by_cases he : e = event
  · subst he
    simp only [if_true, heard, off, remove, Function.update_self]
    have hp : ∀ r : Registration κ, decide (r.listener = k) = true → f r.listener = some b :=
      fun r hr => by rw [of_decide_eq_true hr, hk]
    rcases filterMap_eraseLast hp hnodup with ⟨hnone, hsame⟩ | hgone
    · rw [hsame]
      refine (filter_ne_of_not_mem fun hb => ?_).symm
      obtain ⟨r, hr, hrk⟩ := List.mem_filterMap.mp hb
      simpa [hf _ hrk] using hnone r hr
    · exact hgone
  · simp [heard, off, remove, he]

/-- A step of an emission removes at most the listener that it calls. -/
theorem heard_dispatch (h : s.dispatch = some (called, t))
    (hnodup : ∀ e, (s.heard f e).Nodup) (e : ε) :
    t.heard f e = s.heard f e ∨ ∃ k b, called = some k ∧ f k = some b ∧
      t.heard f e = (s.heard f e).filter fun other => other ≠ b := by
  cases dispatch_cases h with
  | finished _ => exact .inl rfl
  | spent _ _ => exact .inl rfl
  | called _ _ => exact .inl rfl
  | @wrapped event r _ _ _ _ =>
    cases hr : f r.listener with
    | none =>
      refine .inl (heard_remove_none (fun other ho => ?_) event e)
      rwa [of_decide_eq_true ho]
    | some b =>
      have hp : ∀ other : Registration κ, decide (other = r) = true →
          f other.listener = some b := fun other ho => by rw [of_decide_eq_true ho, hr]
      exact (heard_remove hp (hnodup event) e).imp_right fun hgone => ⟨_, b, rfl, hr, hgone⟩

end

/-! ## The calls still to make -/

def Due (s : Emitter ε κ) (r : Registration κ) : Prop :=
  ∃ emission ∈ s.emissions, r ∈ emission.2

variable {s t : Emitter ε κ} {r : Registration κ} {called : Option κ}

omit [DecidableEq ε] [DecidableEq κ] in
theorem due_of_emit {event : ε} (h : (s.emit event).Due r) : r ∈ s.listeners event ∨ s.Due r := by
  obtain ⟨emission, hmem, hr⟩ := h
  rcases List.mem_cons.mp hmem with rfl | hmem
  · exact .inl hr
  · exact .inr ⟨emission, hmem, hr⟩

omit [DecidableEq ε] [DecidableEq κ] in
theorem abandon_cases (h : s.abandon = some t) :
    ∃ first outer, s.emissions = first :: outer ∧ t = { s with emissions := outer } := by
  unfold abandon at h
  split at h
  · cases h
  · rename_i first outer hemissions
    cases h
    exact ⟨first, outer, hemissions, rfl⟩

omit [DecidableEq ε] [DecidableEq κ] in
theorem due_of_abandon (h : s.abandon = some t) (hr : t.Due r) : s.Due r := by
  obtain ⟨first, outer, hemissions, rfl⟩ := abandon_cases h
  obtain ⟨emission, hmem, hr⟩ := hr
  exact ⟨emission, by simp [hemissions, show emission ∈ outer from hmem], hr⟩

theorem due_of_dispatch (h : s.dispatch = some (called, t)) (hr : t.Due r) : s.Due r := by
  obtain ⟨emission, hmem, hr⟩ := hr
  have hrest : ∀ {event : ε} {first : Registration κ} {rest : List (Registration κ)}
      {outer : List (ε × List (Registration κ))}, s.emissions = (event, first :: rest) :: outer →
      emission ∈ (event, rest) :: outer → s.Due r := by
    intro event first rest outer hemissions hmem
    rcases List.mem_cons.mp hmem with rfl | hmem
    · exact ⟨(event, first :: rest), by simp [hemissions], List.mem_cons_of_mem _ hr⟩
    · exact ⟨emission, by simp [hemissions, hmem], hr⟩
  cases dispatch_cases h with
  | @finished event outer hemissions =>
    exact ⟨emission, by simp [hemissions, show emission ∈ outer from hmem], hr⟩
  | spent hemissions _ => exact hrest hemissions hmem
  | called hemissions _ => exact hrest hemissions hmem
  | wrapped hemissions _ => exact hrest hemissions hmem

theorem due_of_called {k : κ} (h : s.dispatch = some (some k, t)) :
    ∃ r, s.Due r ∧ r.listener = k := by
  have hfirst : ∀ {event : ε} {r : Registration κ} {rest : List (Registration κ)}
      {outer : List (ε × List (Registration κ))},
      s.emissions = (event, r :: rest) :: outer → s.Due r := fun hemissions =>
    ⟨_, hemissions ▸ List.mem_cons_self, List.mem_cons_self⟩
  cases dispatch_cases h with
  | called hemissions _ => exact ⟨_, hfirst hemissions, rfl⟩
  | wrapped hemissions _ => exact ⟨_, hfirst hemissions, rfl⟩

/-- A wrapper that has been called has called its listener. -/
theorem fired_of_dispatch (h : s.dispatch = some (called, t)) (hr : r ∈ t.fired) :
    r ∈ s.fired ∨ called = some r.listener := by
  cases dispatch_cases h with
  | finished _ => exact .inl hr
  | spent _ _ => exact .inl hr
  | called _ _ => exact .inl hr
  | wrapped _ _ =>
    rcases List.mem_cons.mp hr with rfl | hr
    · exact .inr rfl
    · exact .inl hr

end Emitter

end NewsApi.Async
