import Mathlib.Data.Finset.Card
import Mathlib.Data.Finset.Range
import NewsApi.Async.AbortSignal

/-! # Dispatches of abort events

The steps in which events reach their listeners. Dispatches nest: a listener
may abort another controller, whose dispatch then comes first. -/
namespace NewsApi.Async

universe u

def Pending.isEvent {κ : Type u} : Pending κ → Bool
  | .fire _ => true
  | .call _ _ => false

namespace Signals

variable {κ : Type u} [DecidableEq κ]

/-- The next step of the dispatches in progress. An event is fired at the
listeners of that moment; one that is removed before its turn is not called. -/
def perform (callback : κ → Signals κ → Signals κ) (s : Signals κ) : Option (Signals κ) :=
  match s.pending with
  | [] => none
  | .fire i :: rest => some { s with
    pending := (s.listeners i).map (.call i) ++ rest
    fired := i :: s.fired }
  | .call i listener :: rest =>
    if listener ∈ s.listeners i then
      some (callback listener ({ s with pending := rest }.removeEventListener i listener))
    else some { s with pending := rest }

/-! ## The steps of a dispatch -/

/-- What a step of the dispatches does. -/
theorem perform_cases {callback : κ → Signals κ → Signals κ} {s t : Signals κ}
    (h : s.perform callback = some t) :
    (∃ i rest, s.pending = .fire i :: rest ∧ t = { s with
      pending := (s.listeners i).map (.call i) ++ rest, fired := i :: s.fired }) ∨
    (∃ i l rest, s.pending = .call i l :: rest ∧ l ∉ s.listeners i ∧
      t = { s with pending := rest }) ∨
    (∃ i l rest, s.pending = .call i l :: rest ∧ l ∈ s.listeners i ∧
      t = callback l ({ s with pending := rest }.removeEventListener i l)) := by
  unfold perform at h
  split at h
  · cases h
  · rename_i i rest hpending
    exact .inl ⟨i, rest, hpending, (Option.some.inj h).symm⟩
  · rename_i i l rest hpending
    split at h
    · rename_i hmem
      exact .inr (.inr ⟨i, l, rest, hpending, hmem, (Option.some.inj h).symm⟩)
    · rename_i hmem
      exact .inr (.inl ⟨i, l, rest, hpending, hmem, (Option.some.inj h).symm⟩)

theorem perform_none {callback : κ → Signals κ → Signals κ} {s : Signals κ}
    (h : s.perform callback = none) : s.pending = [] := by
  unfold perform at h
  split at h
  · assumption
  · cases h
  · split at h <;> cases h

omit [DecidableEq κ] in
theorem Valid.fire {s : Signals κ} (h : Valid s) {i : Nat} {rest : List (Pending κ)}
    (hpending : s.pending = .fire i :: rest) : Valid { s with
      pending := (s.listeners i).map (.call i) ++ rest, fired := i :: s.fired } := by
  have hfires : ∀ j, fires { s with
      pending := (s.listeners i).map (.call i) ++ rest, fired := i :: s.fired } j = s.fires j := by
    intro j
    have hcalls : ((s.listeners i).map (Pending.call i)).countP (Pending.isFire j) = 0 := by
      simp [List.countP_eq_zero, Pending.isFire]
    simp only [fires, hpending, List.countP_append, hcalls]
    by_cases hij : i = j
    · simp [Pending.isFire, hij]
      omega
    · simp [Pending.isFire, hij]
  refine ⟨h.roots_lt, h.fresh, h.nodup, ?_, ?_, ?_⟩
  · intro j l hcall
    rcases List.mem_append.mp hcall with hnew | hold
    · obtain ⟨l', -, he⟩ := List.mem_map.mp hnew
      cases he
      exact h.fire_aborted (by simp [hpending])
    · exact h.calls j l (by simp [hpending, hold])
  · intro j
    rw [hfires]
    exact h.fires_le j
  · intro j hroot
    rw [hfires]
    exact h.fires_own j hroot

omit [DecidableEq κ] in
theorem Valid.called {s : Signals κ} (h : Valid s) {i : Nat} {l : κ} {rest : List (Pending κ)}
    (hpending : s.pending = .call i l :: rest) : Valid { s with pending := rest } := by
  have hfires : ∀ j, fires { s with pending := rest } j = s.fires j := by
    intro j
    simp [fires, hpending, Pending.isFire]
  refine ⟨h.roots_lt, h.fresh, h.nodup, ?_, ?_, ?_⟩
  · intro j l' hcall
    exact h.calls j l' (by simp [hpending, hcall])
  · intro j
    rw [hfires]
    exact h.fires_le j
  · intro j hroot
    rw [hfires]
    exact h.fires_own j hroot

theorem Valid.perform {callback : κ → Signals κ → Signals κ} {s t : Signals κ} (h : Valid s)
    (hcallback : ∀ l s, Valid s → Valid (callback l s)) (hstep : s.perform callback = some t) :
    Valid t := by
  rcases perform_cases hstep with ⟨i, rest, hpending, rfl⟩ | ⟨i, l, rest, hpending, -, rfl⟩ |
    ⟨i, l, rest, hpending, -, rfl⟩
  · exact h.fire hpending
  · exact h.called hpending
  · exact hcallback l _ ((h.called hpending).removeEventListener i l)

/-- A dispatch calls listeners that were registered. -/
theorem Knows.of_perform {callback : κ → Signals κ → Signals κ} {s t : Signals κ} {l : κ}
    (h : t.Knows l) (hcallback : ∀ l l' s, (callback l s).Knows l' → s.Knows l')
    (hstep : s.perform callback = some t) : s.Knows l := by
  rcases perform_cases hstep with ⟨i, rest, hpending, rfl⟩ | ⟨i, l', rest, hpending, -, rfl⟩ |
    ⟨i, l', rest, hpending, -, rfl⟩
  · rcases h with hi | ⟨j, hcall⟩
    · exact .inl hi
    · rcases List.mem_append.mp hcall with hnew | hold
      · obtain ⟨l', hl, he⟩ := List.mem_map.mp hnew
        cases he
        exact .inl ⟨i, hl⟩
      · exact .inr ⟨j, by simp [hpending, hold]⟩
  · rcases h with hi | ⟨j, hcall⟩
    · exact .inl hi
    · exact .inr ⟨j, by simp [hpending, hcall]⟩
  · rcases (hcallback l' l _ h).of_removeEventListener with hi | ⟨j, hcall⟩
    · exact .inl hi
    · exact .inr ⟨j, by simp [hpending, hcall]⟩

theorem listeners_of_perform {callback : κ → Signals κ → Signals κ} {s t : Signals κ}
    {i : Nat} {l : κ} (h : l ∈ t.listeners i)
    (hcallback : ∀ l' s, l ∈ (callback l' s).listeners i → l ∈ s.listeners i)
    (hstep : s.perform callback = some t) : l ∈ s.listeners i := by
  rcases perform_cases hstep with ⟨j, rest, -, rfl⟩ | ⟨j, l', rest, -, -, rfl⟩ |
    ⟨j, l', rest, -, -, rfl⟩
  · exact h
  · exact h
  · exact (mem_removeEventListener.mp (hcallback l' _ h)).1

/-! ## Signals later on -/

/-- What stays as it was: signals follow the same controllers and stay aborted. -/
structure Later (s t : Signals κ) : Prop where
  next_le : s.next ≤ t.next
  roots : ∀ i < s.next, t.roots i = s.roots i
  aborted : ∀ i < s.next, s.aborted i = true → t.aborted i = true

section
omit [DecidableEq κ]

/-- Listeners and dispatches do not count. -/
theorem later_of_same {s t : Signals κ} (hnext : t.next = s.next) (hown : t.own = s.own)
    (hroots : t.roots = s.roots) : Later s t where
  next_le := hnext.ge
  roots i _ := by rw [hroots]
  aborted i _ ha := by
    rw [Signals.aborted, hown, hroots]
    exact ha

theorem Later.refl (s : Signals κ) : Later s s := later_of_same rfl rfl rfl

theorem Later.trans {s t u : Signals κ} (h : Later s t) (h' : Later t u) : Later s u where
  next_le := h.next_le.trans h'.next_le
  roots i hi := (h'.roots i (hi.trans_le h.next_le)).trans (h.roots i hi)
  aborted i hi ha := h'.aborted i (hi.trans_le h.next_le) (h.aborted i hi ha)

theorem Valid.later_create {s : Signals κ} (h : Valid s) (roots : List Nat) :
    Later s (s.create roots) where
  next_le := Nat.le_succ _
  roots i hi := by simp [Signals.create, hi.ne]
  aborted i hi ha := (aborted_create h hi.ne roots).trans ha

theorem later_abort (controller : Nat) (s : Signals κ) : Later s (s.abort controller) where
  next_le := by simp
  roots := by simp
  aborted i _ ha := by simp [aborted_abort, ha]

/-- The flag of `AbortSignal.any` is that of its sources, whatever happens later. -/
theorem Later.aborted_any {s t : Signals κ} {signals : List Nat} (h : Later (s.any signals) t)
    (hvalid : Valid s) (hexist : ∀ i ∈ signals, i < s.next) :
    t.aborted s.next = signals.any t.aborted := by
  have hroots : t.roots s.next = signals.flatMap s.roots := by
    rw [h.roots s.next (Nat.lt_succ_self _)]
    simp [Signals.any, Signals.create]
  have hsources : signals.flatMap s.roots = signals.flatMap t.roots := by
    refine List.flatMap_congr fun i hi => ?_
    rw [((hvalid.later_create _).trans h).roots i (hexist i hi)]
  rw [Signals.aborted, hroots, hsources, Signals.aborted_any]

end

theorem later_addAll (signals : List Nat) (l : κ) (s : Signals κ) :
    Later s (s.addAll signals l) := by
  rw [addAll_eq]
  exact later_of_same rfl rfl rfl

theorem later_removeAll (signals : List Nat) (l : κ) (s : Signals κ) :
    Later s (s.removeAll signals l) := by
  rw [removeAll_eq]
  exact later_of_same rfl rfl rfl

theorem later_perform {callback : κ → Signals κ → Signals κ} {s t : Signals κ}
    (hcallback : ∀ l s, Later s (callback l s)) (hstep : s.perform callback = some t) :
    Later s t := by
  rcases perform_cases hstep with ⟨i, rest, -, rfl⟩ | ⟨i, l, rest, -, -, rfl⟩ |
    ⟨i, l, rest, -, -, rfl⟩
  · exact later_of_same rfl rfl rfl
  · exact later_of_same rfl rfl rfl
  · have hbefore : Later s ({ s with pending := rest }.removeEventListener i l) :=
      later_of_same rfl rfl rfl
    exact hbefore.trans (hcallback l _)

/-! ## Dispatches end -/

/-- The controllers that can still abort. -/
def alive (s : Signals κ) : Nat := {i ∈ Finset.range s.next | s.own i = false}.card

/-- The events that are still to be fired. -/
def unfired (s : Signals κ) : Nat := s.pending.countP Pending.isEvent

omit [DecidableEq κ] in
/-- A controller that aborts anything is one fewer. -/
theorem alive_abort {s : Signals κ} (h : Valid s) (controller : Nat) :
    (s.abort controller).alive < s.alive ∨
      (s.abort controller).alive = s.alive ∧ (s.abort controller).pending = s.pending := by
  cases hown : s.own controller with
  | true => simp [abort, hown]
  | false =>
    by_cases hlt : controller < s.next
    · refine .inl (Finset.card_lt_card ⟨?_, ?_⟩)
      · intro i hi
        by_cases he : i = controller
        · simp [he, hlt, hown]
        · simpa [abort, hown, he] using hi
      · intro hsub
        have hmem : controller ∈ {i ∈ Finset.range s.next | s.own i = false} := by simp [hlt, hown]
        simpa [abort, hown] using hsub hmem
    · have hwakes : s.wakes controller = [] := by
        refine List.eq_nil_iff_forall_not_mem.mpr fun i hi => hlt ?_
        exact h.roots_lt i controller ((mem_wakes h).mp hi).1
      have hsame : ∀ i ∈ Finset.range s.next, (s.abort controller).own i = s.own i := by
        intro i hi
        have hne : i ≠ controller := by
          intro he
          exact hlt (he ▸ Finset.mem_range.mp hi)
        simp [abort, hown, hne]
      refine .inr ⟨?_, by simp [abort, hown, hwakes]⟩
      unfold alive
      rw [abort_next, Finset.filter_congr fun i hi => by rw [hsame i hi]]

/-- Each step of the dispatches leaves less to do. -/
theorem perform_decreases {callback : κ → Signals κ → Signals κ} {s t : Signals κ} (h : Valid s)
    (hcallback : ∀ l s, Valid s → (callback l s).alive < s.alive ∨
      (callback l s).alive = s.alive ∧ (callback l s).pending = s.pending)
    (hstep : s.perform callback = some t) :
    t.alive < s.alive ∨ t.alive = s.alive ∧ (t.unfired < s.unfired ∨
      t.unfired = s.unfired ∧ t.pending.length < s.pending.length) := by
  rcases perform_cases hstep with ⟨i, rest, hpending, rfl⟩ | ⟨i, l, rest, hpending, -, rfl⟩ |
    ⟨i, l, rest, hpending, -, rfl⟩
  · refine .inr ⟨rfl, .inl ?_⟩
    have hcalls : ((s.listeners i).map (Pending.call i)).countP Pending.isEvent = 0 := by
      simp [List.countP_eq_zero, Pending.isEvent]
    simp only [unfired, hpending, List.countP_append, hcalls, List.countP_cons]
    simp [Pending.isEvent]
  · exact .inr ⟨rfl, .inr ⟨by simp [unfired, hpending, Pending.isEvent], by simp [hpending]⟩⟩
  · rcases hcallback l _ ((h.called hpending).removeEventListener i l) with hless |
      ⟨hsame, hrest⟩
    · exact .inl hless
    · refine .inr ⟨hsame, .inr ⟨?_, ?_⟩⟩
      · rw [unfired, hrest]
        simp [unfired, hpending, removeEventListener, Pending.isEvent]
      · rw [hrest]
        simp [hpending, removeEventListener]

end Signals
end NewsApi.Async
