import Mathlib.Data.List.Range
import Mathlib.Logic.Function.Basic

/-! # Abort signals

Signals with their listeners, and the events that wait to be dispatched. A
controller aborts its own signal and the signals that depend on it. A signal
fires once, so every listener here is one with `once`. -/
namespace NewsApi.Async

universe u

/-- What is left of the dispatches in progress. -/
inductive Pending (κ : Type u) where
  /-- the `abort` event of a signal -/
  | fire (signal : Nat)
  | call (signal : Nat) (listener : κ)
  deriving DecidableEq

structure Signals (κ : Type u) where
  /-- signals are numbered as they are created -/
  next : Nat
  /-- the controllers that aborted; a controller has the number of its signal -/
  own : Nat → Bool
  /-- the controllers that abort a signal -/
  roots : Nat → List Nat
  listeners : Nat → List κ
  /-- innermost dispatch first -/
  pending : List (Pending κ)
  /-- the events fired, newest first -/
  fired : List Nat

namespace Signals

variable {κ : Type u}

def empty : Signals κ := ⟨0, fun _ => false, fun _ => [], fun _ => [], [], []⟩

def aborted (s : Signals κ) (signal : Nat) : Bool := (s.roots signal).any s.own

/-- A new signal, which is `s.next`. -/
def create (roots : List Nat) (s : Signals κ) : Signals κ := { s with
  next := s.next + 1
  own := Function.update s.own s.next false
  roots := Function.update s.roots s.next roots
  listeners := Function.update s.listeners s.next [] }

/-- `new AbortController()` -/
def controller (s : Signals κ) : Signals κ := s.create [s.next]

/-- `AbortSignal.any(signals)`: it follows what its sources follow. -/
def any (signals : List Nat) (s : Signals κ) : Signals κ := s.create (signals.flatMap s.roots)

/-- The signals that a controller is about to abort, in order of creation. -/
def wakes (s : Signals κ) (controller : Nat) : List Nat :=
  (List.range s.next).filter fun i => (s.roots i).contains controller && !s.aborted i

/-- `controller.abort()`: the flags change at once, the events are fired next. -/
def abort (controller : Nat) (s : Signals κ) : Signals κ :=
  if s.own controller then s else { s with
    own := Function.update s.own controller true
    pending := (s.wakes controller).map .fire ++ s.pending }

variable [DecidableEq κ]

def addEventListener (signal : Nat) (listener : κ) (s : Signals κ) : Signals κ := { s with
  listeners := Function.update s.listeners signal
    (if listener ∈ s.listeners signal then s.listeners signal
      else s.listeners signal ++ [listener]) }

def removeEventListener (signal : Nat) (listener : κ) (s : Signals κ) : Signals κ := { s with
  listeners := Function.update s.listeners signal
    ((s.listeners signal).filter fun l => l ≠ listener) }

/-! ## Listeners on several signals -/

def removeAll (signals : List Nat) (listener : κ) (s : Signals κ) : Signals κ :=
  signals.foldl (fun s i => s.removeEventListener i listener) s

def addAll (signals : List Nat) (listener : κ) (s : Signals κ) : Signals κ :=
  signals.foldl (fun s i => s.addEventListener i listener) s

theorem removeAll_eq (signals : List Nat) (listener : κ) (s : Signals κ) :
    s.removeAll signals listener = { s with
      listeners := fun j => if j ∈ signals then (s.listeners j).filter fun l => l ≠ listener
        else s.listeners j } := by
  induction signals generalizing s with
  | nil => simp [removeAll]
  | cons i rest ih =>
    rw [removeAll, List.foldl_cons, ← removeAll, ih]
    simp only [removeEventListener, Signals.mk.injEq, true_and, and_true]
    funext j
    by_cases hj : j = i
    · subst hj
      by_cases hrest : j ∈ rest <;> simp [hrest, List.filter_filter]
    · simp [hj]

theorem addAll_eq (signals : List Nat) (listener : κ) (s : Signals κ) :
    s.addAll signals listener = { s with
      listeners := fun j => if j ∈ signals ∧ listener ∉ s.listeners j
        then s.listeners j ++ [listener] else s.listeners j } := by
  induction signals generalizing s with
  | nil => simp [addAll]
  | cons i rest ih =>
    rw [addAll, List.foldl_cons, ← addAll, ih]
    simp only [addEventListener, Signals.mk.injEq, true_and, and_true]
    funext j
    by_cases hj : j = i
    · subst hj
      by_cases hin : listener ∈ s.listeners j <;> simp [hin]
    · simp [hj]

theorem mem_removeEventListener {signal i : Nat} {listener l : κ} {s : Signals κ} :
    l ∈ (s.removeEventListener signal listener).listeners i ↔
      l ∈ s.listeners i ∧ (i = signal → l ≠ listener) := by
  by_cases hi : i = signal
  · subst hi
    simp [removeEventListener]
  · simp [removeEventListener, hi]

theorem mem_addEventListener {signal i : Nat} {listener l : κ} {s : Signals κ} :
    l ∈ (s.addEventListener signal listener).listeners i ↔
      l ∈ s.listeners i ∨ i = signal ∧ l = listener := by
  by_cases hi : i = signal
  · subst hi
    by_cases hl : listener ∈ s.listeners i
    · simp [addEventListener, hl]
      intro he
      exact he ▸ hl
    · simp [addEventListener, hl]
  · simp [addEventListener, hi]

theorem mem_removeAll {signals : List Nat} {listener l : κ} {s : Signals κ} {i : Nat} :
    l ∈ (s.removeAll signals listener).listeners i ↔
      l ∈ s.listeners i ∧ (i ∈ signals → l ≠ listener) := by
  rw [removeAll_eq]
  by_cases hi : i ∈ signals <;> simp [hi]

theorem mem_addAll {signals : List Nat} {listener l : κ} {s : Signals κ} {i : Nat} :
    l ∈ (s.addAll signals listener).listeners i ↔
      l ∈ s.listeners i ∨ i ∈ signals ∧ l = listener := by
  rw [addAll_eq]
  by_cases hi : i ∈ signals <;> by_cases hl : listener ∈ s.listeners i <;> simp [hi, hl]
  intro he
  exact he ▸ hl

/-! ## What the operations leave alone -/

section
omit [DecidableEq κ]

@[simp] theorem abort_next (controller : Nat) (s : Signals κ) :
    (s.abort controller).next = s.next := by
  unfold abort
  split <;> rfl

@[simp] theorem abort_roots (controller : Nat) (s : Signals κ) :
    (s.abort controller).roots = s.roots := by
  unfold abort
  split <;> rfl

@[simp] theorem abort_listeners (controller : Nat) (s : Signals κ) :
    (s.abort controller).listeners = s.listeners := by
  unfold abort
  split <;> rfl

@[simp] theorem call_mem_abort {controller i : Nat} {l : κ} {s : Signals κ} :
    .call i l ∈ (s.abort controller).pending ↔ .call i l ∈ s.pending := by
  unfold abort
  split <;> simp

theorem pending_subset_abort (controller : Nat) (s : Signals κ) :
    s.pending ⊆ (s.abort controller).pending := by
  unfold abort
  split <;> simp

/-- A listener is registered, or is about to be called. -/
def Knows (s : Signals κ) (l : κ) : Prop := (∃ i, l ∈ s.listeners i) ∨ ∃ i, .call i l ∈ s.pending

/-- No event of the signal is being dispatched. -/
def Idle (s : Signals κ) (signal : Nat) : Prop :=
  .fire signal ∉ s.pending ∧ ∀ l, .call signal l ∉ s.pending

theorem Knows.of_create {roots : List Nat} {s : Signals κ} {l : κ} (h : (s.create roots).Knows l) :
    s.Knows l := by
  rcases h with ⟨i, hi⟩ | hcall
  · by_cases he : i = s.next
    · simp [create, he] at hi
    · exact .inl ⟨i, by simpa [create, he] using hi⟩
  · exact .inr hcall

theorem Knows.of_abort {controller : Nat} {s : Signals κ} {l : κ}
    (h : (s.abort controller).Knows l) : s.Knows l := by
  simpa [Knows] using h

end

theorem Knows.of_addEventListener {signal : Nat} {s : Signals κ} {l l' : κ}
    (h : (s.addEventListener signal l).Knows l') (hne : l' ≠ l) : s.Knows l' := by
  rcases h with ⟨i, hi⟩ | hcall
  · rcases mem_addEventListener.mp hi with hold | ⟨-, hnew⟩
    · exact .inl ⟨i, hold⟩
    · exact absurd hnew hne
  · exact .inr hcall

theorem Knows.of_addAll {signals : List Nat} {s : Signals κ} {l l' : κ}
    (h : (s.addAll signals l).Knows l') : l' = l ∨ s.Knows l' := by
  rcases h with ⟨i, hi⟩ | hcall
  · rcases mem_addAll.mp hi with hold | ⟨-, hnew⟩
    · exact .inr (.inl ⟨i, hold⟩)
    · exact .inl hnew
  · rw [addAll_eq] at hcall
    exact .inr (.inr hcall)

theorem Knows.of_removeEventListener {signal : Nat} {s : Signals κ} {l l' : κ}
    (h : (s.removeEventListener signal l).Knows l') : s.Knows l' := by
  rcases h with ⟨i, hi⟩ | hcall
  · exact .inl ⟨i, (mem_removeEventListener.mp hi).1⟩
  · exact .inr hcall

theorem Knows.of_removeAll {signals : List Nat} {s : Signals κ} {l l' : κ}
    (h : (s.removeAll signals l).Knows l') : s.Knows l' := by
  rcases h with ⟨i, hi⟩ | hcall
  · exact .inl ⟨i, (mem_removeAll.mp hi).1⟩
  · rw [removeAll_eq] at hcall
    exact .inr hcall

/-! ## When a signal is aborted -/

omit [DecidableEq κ] in
theorem aborted_abort (controller i : Nat) (s : Signals κ) :
    (s.abort controller).aborted i = (s.aborted i || (s.roots i).contains controller) := by
  by_cases hown : s.own controller = true
  · cases hroot : (s.roots i).contains controller with
    | false => simp [abort, hown]
    | true =>
      have hmem : controller ∈ s.roots i := by simpa using hroot
      have hany : ∃ r ∈ s.roots i, s.own r = true := ⟨controller, hmem, hown⟩
      simp [abort, hown, aborted, hany]
  · rw [Bool.eq_iff_iff]
    simp only [abort, hown, aborted, Bool.false_eq_true, if_false, List.any_eq_true,
      Bool.or_eq_true, List.contains_iff_mem]
    constructor
    · intro h
      obtain ⟨r, hr, ht⟩ := h
      by_cases he : r = controller
      · exact .inr (he ▸ hr)
      · exact .inl ⟨r, hr, by simpa [he] using ht⟩
    · intro h
      rcases h with ⟨r, hr, ht⟩ | hr
      · exact ⟨r, hr, by by_cases he : r = controller <;> simp [he, ht]⟩
      · exact ⟨controller, hr, by simp⟩

omit [DecidableEq κ] in
theorem aborted_any (signals : List Nat) (s : Signals κ) :
    (signals.flatMap s.roots).any s.own = signals.any s.aborted := by
  rw [List.any_flatMap]
  rfl

/-! ## Events are fired once -/

end Signals

def Pending.isFire {κ : Type u} (i : Nat) : Pending κ → Bool
  | .fire j => j == i
  | .call _ _ => false

namespace Signals

variable {κ : Type u}

/-- How often the event of a signal was fired or is to be fired. -/
def fires (s : Signals κ) (i : Nat) : Nat := s.fired.count i + s.pending.countP (Pending.isFire i)

theorem fires_of_idle {s : Signals κ} {i : Nat} (h : s.Idle i) : s.fires i = s.fired.count i := by
  have hnone : s.pending.countP (Pending.isFire i) = 0 := by
    refine List.countP_eq_zero.mpr fun task htask hfire => ?_
    cases task with
    | fire j =>
      obtain rfl : j = i := by simpa [Pending.isFire] using hfire
      exact h.1 htask
    | call j l => cases hfire
  rw [fires, hnone, Nat.add_zero]

/-- What the operations keep. -/
structure Valid (s : Signals κ) : Prop where
  roots_lt : ∀ i, ∀ r ∈ s.roots i, r < s.next
  fresh : ∀ i, s.next ≤ i → s.roots i = []
  nodup : ∀ i, (s.listeners i).Nodup
  calls : ∀ i l, .call i l ∈ s.pending → s.aborted i = true
  fires_le : ∀ i, s.fires i ≤ (s.aborted i).toNat
  fires_own : ∀ i, s.roots i = [i] → s.fires i = (s.aborted i).toNat

theorem Valid.not_aborted_fresh {s : Signals κ} (h : Valid s) {i : Nat} (hi : s.next ≤ i) :
    s.aborted i = false := by
  simp [aborted, h.fresh i hi]

theorem Valid.fire_aborted {s : Signals κ} (h : Valid s) {i : Nat} (hi : .fire i ∈ s.pending) :
    s.aborted i = true := by
  have hpos : 0 < s.pending.countP (Pending.isFire i) :=
    List.countP_pos_iff.mpr ⟨_, hi, by simp [Pending.isFire]⟩
  have hle := h.fires_le i
  unfold fires at hle
  cases ha : s.aborted i with
  | true => rfl
  | false =>
    rw [ha, Bool.toNat_false] at hle
    omega

theorem empty_valid : Valid (empty : Signals κ) where
  roots_lt i r hr := by cases hr
  fresh _ _ := rfl
  nodup _ := List.nodup_nil
  calls i l h := by cases h
  fires_le _ := Nat.le_refl _
  fires_own _ _ := rfl

/-- A new signal changes no other one. -/
theorem aborted_create {s : Signals κ} (h : Valid s) {i : Nat} (hi : i ≠ s.next)
    (roots : List Nat) : (s.create roots).aborted i = s.aborted i := by
  have hroot : ∀ r ∈ s.roots i, r ≠ s.next := fun r hr => (h.roots_lt i r hr).ne
  rw [Bool.eq_iff_iff]
  simp only [aborted, create, Function.update_of_ne hi, List.any_eq_true]
  constructor <;> intro hany <;> obtain ⟨r, hr, ht⟩ := hany
  · exact ⟨r, hr, by simpa [hroot r hr] using ht⟩
  · exact ⟨r, hr, by simpa [hroot r hr] using ht⟩

@[simp] theorem aborted_controller (s : Signals κ) : s.controller.aborted s.next = false := by
  simp [aborted, controller, create]

/-- A controller's signal is created waiting; another follows the older ones. -/
theorem Valid.create {s : Signals κ} (h : Valid s) {roots : List Nat}
    (hroots : roots = [s.next] ∨ ∀ r ∈ roots, r < s.next) : Valid (s.create roots) := by
  have hfires : s.fires s.next = 0 := by
    have hle := h.fires_le s.next
    rw [h.not_aborted_fresh (Nat.le_refl _)] at hle
    exact Nat.le_zero.mp hle
  refine ⟨?_, ?_, ?_, ?_, ?_, ?_⟩
  · intro i r hr
    by_cases hi : i = s.next
    · simp only [Signals.create, hi, Function.update_self] at hr ⊢
      rcases hroots with rfl | hroots
      · simp at hr
        omega
      · exact (hroots r hr).trans (Nat.lt_succ_self _)
    · simp only [Signals.create, Function.update_of_ne hi] at hr ⊢
      exact (h.roots_lt i r hr).trans (Nat.lt_succ_self _)
  · intro i hi
    have hne : i ≠ s.next := by
      simp only [Signals.create] at hi
      omega
    simp only [Signals.create, Function.update_of_ne hne] at hi ⊢
    exact h.fresh i (by omega)
  · intro i
    by_cases hi : i = s.next
    · simp [Signals.create, hi]
    · simpa [Signals.create, hi] using h.nodup i
  · intro i l hcall
    have ha := h.calls i l hcall
    have hi : i ≠ s.next := by
      intro he
      rw [he, h.not_aborted_fresh (Nat.le_refl _)] at ha
      cases ha
    rwa [aborted_create h hi]
  · intro i
    by_cases hi : i = s.next
    · subst hi
      exact hfires.trans_le (Nat.zero_le _)
    · rw [aborted_create h hi]
      exact h.fires_le i
  · intro i hroot
    by_cases hi : i = s.next
    · subst hi
      rcases hroots with rfl | hroots
      · exact hfires.trans (by simp [aborted, Signals.create])
      · simp only [Signals.create, Function.update_self] at hroot
        exact absurd (hroots s.next (by simp [hroot])) (Nat.lt_irrefl _)
    · rw [aborted_create h hi]
      simp only [Signals.create, Function.update_of_ne hi] at hroot
      exact h.fires_own i hroot

theorem Valid.any {s : Signals κ} (h : Valid s) (signals : List Nat) : Valid (s.any signals) := by
  refine h.create (.inr fun r hr => ?_)
  obtain ⟨i, -, hroot⟩ := List.mem_flatMap.mp hr
  exact h.roots_lt i r hroot

theorem Valid.withListeners {s : Signals κ} (h : Valid s) {listeners : Nat → List κ}
    (hnodup : ∀ i, (listeners i).Nodup) : Valid { s with listeners } :=
  ⟨h.roots_lt, h.fresh, hnodup, h.calls, h.fires_le, h.fires_own⟩

theorem mem_wakes {s : Signals κ} (h : Valid s) {controller i : Nat} :
    i ∈ s.wakes controller ↔ controller ∈ s.roots i ∧ s.aborted i = false := by
  simp only [wakes, List.mem_filter, List.mem_range, Bool.and_eq_true, List.contains_iff_mem,
    Bool.not_eq_true', and_iff_right_iff_imp]
  intro hroot
  by_contra hi
  rw [h.fresh i (Nat.le_of_not_lt hi)] at hroot
  cases hroot.1

/-- A signal is to be fired in the step that aborts it. -/
theorem fires_abort {s : Signals κ} (h : Valid s) (controller i : Nat) :
    (s.abort controller).fires i + (s.aborted i).toNat =
      s.fires i + ((s.abort controller).aborted i).toNat := by
  cases hown : s.own controller with
  | true => simp [abort, hown]
  | false =>
    have hcount : (s.wakes controller).count i =
        (!s.aborted i && (s.roots i).contains controller).toNat := by
      have hnodup : (s.wakes controller).Nodup := List.nodup_range.filter _
      rw [hnodup.count]
      by_cases hi : i ∈ s.wakes controller
      · obtain ⟨hroot, ha⟩ := (mem_wakes h).mp hi
        simp [hi, hroot, ha]
      · rw [if_neg hi]
        have hnot := mt (mem_wakes h).mpr hi
        cases ha : s.aborted i <;> simp_all
    have hmap : ((s.wakes controller).map Pending.fire).countP (@Pending.isFire κ i) =
        (s.wakes controller).count i := by
      rw [List.countP_map]
      rfl
    have hfires : (s.abort controller).fires i = s.fires i + (s.wakes controller).count i := by
      simp only [abort, hown, fires, Bool.false_eq_true, if_false, List.countP_append, hmap]
      omega
    rw [hfires, hcount, aborted_abort]
    cases s.aborted i <;> cases (s.roots i).contains controller <;> rfl

theorem Valid.abort {s : Signals κ} (h : Valid s) (controller : Nat) :
    Valid (s.abort controller) := by
  refine ⟨?_, ?_, ?_, ?_, ?_, ?_⟩
  · simpa using h.roots_lt
  · simpa using h.fresh
  · simpa using h.nodup
  · intro i l hcall
    simp [aborted_abort, h.calls i l (call_mem_abort.mp hcall)]
  · intro i
    have hle := h.fires_le i
    have hfires := fires_abort h controller i
    omega
  · intro i hroot
    have heq := h.fires_own i (by simpa using hroot)
    have hfires := fires_abort h controller i
    omega

/-- The event of a signal that becomes aborted is to be fired. -/
theorem fire_mem_abort {s : Signals κ} (h : Valid s) {controller i : Nat}
    (hbefore : s.aborted i = false) (hafter : (s.abort controller).aborted i = true) :
    .fire i ∈ (s.abort controller).pending := by
  cases hown : s.own controller with
  | true => simp [Signals.abort, hown, hbefore] at hafter
  | false =>
    rw [aborted_abort, hbefore] at hafter
    have hwakes : i ∈ s.wakes controller := (mem_wakes h).mpr ⟨by simpa using hafter, hbefore⟩
    simp [Signals.abort, hown, hwakes]

variable [DecidableEq κ]

theorem Valid.addEventListener {s : Signals κ} (h : Valid s) (signal : Nat) (listener : κ) :
    Valid (s.addEventListener signal listener) := by
  refine h.withListeners fun i => ?_
  by_cases hi : i = signal
  · subst hi
    rw [Function.update_self]
    split
    · exact h.nodup i
    · rename_i hnot
      refine List.nodup_append.mpr ⟨h.nodup i, by simp, ?_⟩
      intro l hl l' hl'
      rw [List.mem_singleton.mp hl']
      exact fun he => hnot (he ▸ hl)
  · rw [Function.update_of_ne hi]
    exact h.nodup i

theorem Valid.removeEventListener {s : Signals κ} (h : Valid s) (signal : Nat) (listener : κ) :
    Valid (s.removeEventListener signal listener) := by
  refine h.withListeners fun i => ?_
  by_cases hi : i = signal
  · subst hi
    rw [Function.update_self]
    exact (h.nodup i).filter _
  · rw [Function.update_of_ne hi]
    exact h.nodup i

theorem Valid.removeAll {s : Signals κ} (h : Valid s) (signals : List Nat) (listener : κ) :
    Valid (s.removeAll signals listener) := by
  induction signals generalizing s with
  | nil => exact h
  | cons i rest ih => exact ih (h.removeEventListener i listener)

theorem Valid.addAll {s : Signals κ} (h : Valid s) (signals : List Nat) (listener : κ) :
    Valid (s.addAll signals listener) := by
  induction signals generalizing s with
  | nil => exact h
  | cons i rest ih => exact ih (h.addEventListener i listener)

end Signals
end NewsApi.Async
