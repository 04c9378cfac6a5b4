import Mathlib.Logic.Function.Basic

/-! # Machines with outputs

A machine answers each input with an output and goes on to its next state. Of a
family of machines, one for each key, every member runs as if it were alone. -/
namespace NewsApi.Patterns.Machine

universe u v w x

variable {σ : Type u} {ι : Type v} {ο : Type w} (step : σ → ι → σ × ο)

def after (s : σ) (inputs : List ι) : σ := inputs.foldl (fun s input => (step s input).1) s

def outputs : σ → List ι → List ο
  | _, [] => []
  | s, input :: inputs => (step s input).2 :: outputs (step s input).1 inputs

variable {step}

@[simp] theorem after_nil (s : σ) : after step s [] = s := rfl

@[simp] theorem after_cons (s : σ) (input : ι) (inputs : List ι) :
    after step s (input :: inputs) = after step (step s input).1 inputs := rfl

/-- The outputs up to some point are those to the inputs up to there. -/
theorem outputs_split {s : σ} {inputs : List ι} {first second : List ο}
    (h : outputs step s inputs = first ++ second) : ∃ before rest, inputs = before ++ rest ∧
      outputs step s before = first ∧ outputs step (after step s before) rest = second := by
  induction first generalizing s inputs with
  | nil => exact ⟨[], inputs, rfl, rfl, h⟩
  | cons output first ih =>
    cases inputs with
    | nil => simp [outputs] at h
    | cons input inputs =>
      obtain ⟨houtput, hrest⟩ := List.cons.inj h
      obtain ⟨before, rest, hinputs, hfirst, hsecond⟩ := ih hrest
      refine ⟨input :: before, rest, ?_, ?_, hsecond⟩
      · simp [hinputs]
      · simp [outputs, houtput, hfirst]

/-! ## One machine a key -/

variable {κ : Type x} [DecidableEq κ]

variable (step) in
def keyed (states : κ → σ) (call : κ × ι) : (κ → σ) × (κ × ο) :=
  let next := step (states call.1) call.2
  (Function.update states call.1 next.1, (call.1, next.2))

/-- What a list has for one key. -/
def ofKey {α : Type*} (key : κ) (entries : List (κ × α)) : List α :=
  (entries.filter fun entry => entry.1 = key).map Prod.snd

theorem ofKey_cons_self {α : Type*} (key : κ) (value : α) (entries : List (κ × α)) :
    ofKey key ((key, value) :: entries) = value :: ofKey key entries := by
  simp [ofKey]

theorem ofKey_cons_ne {α : Type*} {key other : κ} (h : other ≠ key) (value : α)
    (entries : List (κ × α)) : ofKey key ((other, value) :: entries) = ofKey key entries := by
  simp [ofKey, h]

/-- Calls for other keys neither change the outputs for a key nor its state. -/
theorem keyed_ofKey (key : κ) (states : κ → σ) (calls : List (κ × ι)) :
    ofKey key (outputs (keyed step) states calls) = outputs step (states key) (ofKey key calls) ∧
      after (keyed step) states calls key = after step (states key) (ofKey key calls) := by
  induction calls generalizing states with
  | nil => exact ⟨rfl, rfl⟩
  | cons call calls ih =>
    obtain ⟨other, input⟩ := call
    obtain ⟨houtputs, hafter⟩ := ih (keyed step states (other, input)).1
    by_cases hkey : other = key
    · subst hkey
      simp only [keyed, Function.update_self] at houtputs hafter
      simp only [outputs, keyed, ofKey_cons_self, after_cons]
      exact ⟨congrArg _ houtputs, hafter⟩
    · have hself : key ≠ other := fun h => hkey h.symm
      simp only [keyed, Function.update_of_ne hself] at houtputs hafter
      simp only [outputs, keyed, ofKey_cons_ne hkey, after_cons]
      exact ⟨houtputs, hafter⟩

theorem ofKey_filter {α : Type*} (key : κ) (entries : List (κ × α)) :
    ofKey key (entries.filter fun entry => entry.1 = key) = ofKey key entries := by
  simp [ofKey]

end NewsApi.Patterns.Machine
