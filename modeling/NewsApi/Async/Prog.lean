/-! # Asynchronous programs

A program is the tree of what an `async` function does between its awaits:
it ends, it gives a command to its host and continues with the reply, or it
runs a loop. Commands are data, so one program can be run against different
hosts, and a property of the program is proved by recursion on its tree.
Exceptions are a layer on top (`AsyncM`). -/
namespace NewsApi.Async

/-- `iter body b k` runs `body` from `b` until it answers on the right, and
continues with `k`. The tree itself is well founded: only `iter` can run for
ever. -/
inductive Prog (C : Type) (R : C → Type) : Type → Type 1
  | pure {α : Type} (a : α) : Prog C R α
  | call {α : Type} (c : C) (k : R c → Prog C R α) : Prog C R α
  | iter {α β γ : Type} (body : β → Prog C R (β ⊕ γ)) (b : β) (k : γ → Prog C R α) : Prog C R α

variable {C : Type} {R : C → Type} {α β γ δ ε : Type}

namespace Prog

def bind {α δ : Type} : Prog C R α → (α → Prog C R δ) → Prog C R δ
  | .pure a, f => f a
  | .call c k, f => .call c fun r => (k r).bind f
  | .iter body b k, f => .iter body b fun g => (k g).bind f

instance : Monad (Prog C R) where
  pure := .pure
  bind := .bind

/-- Give one command and return its reply. -/
def command (c : C) : Prog C R (R c) := .call c .pure

/-- Every command the program can give satisfies `A`. -/
def Only (A : C → Prop) {α : Type} : Prog C R α → Prop
  | .pure _ => True
  | .call c k => A c ∧ ∀ r, (k r).Only A
  | .iter body _ k => (∀ b, (body b).Only A) ∧ ∀ g, (k g).Only A

variable {A : C → Prop}

theorem Only.bind {p : Prog C R α} {f : α → Prog C R δ} (hp : p.Only A)
    (hf : ∀ a, (f a).Only A) : (p.bind f).Only A := by
  induction p with
  | pure a => exact hf a
  | call c k ih => exact ⟨hp.1, fun r => ih r (hp.2 r) hf⟩
  | iter body b k _ ihk => exact ⟨hp.1, fun g => ihk g (hp.2 g) hf⟩

theorem Only.command {c : C} (hc : A c) : (command c : Prog C R (R c)).Only A :=
  ⟨hc, fun _ => trivial⟩

end Prog

/-- A program that may throw, as every `async` function may. -/
abbrev AsyncM (ε C : Type) (R : C → Type) (α : Type) : Type 1 := ExceptT ε (Prog C R) α

namespace AsyncM

/-- Run a program for its outcome, thrown errors included. -/
def attempt (x : AsyncM ε C R α) : AsyncM ε C R (Except ε α) :=
  ExceptT.mk (x.run.bind (.pure <| .ok ·))

/-- Return or rethrow an outcome. -/
def ofExcept (r : Except ε α) : AsyncM ε C R α := ExceptT.mk (.pure r)

/-- `try { x } finally { fin }`: an error of `fin` replaces the outcome of `x`. -/
def withFinally (x : AsyncM ε C R α) (fin : AsyncM ε C R Unit) : AsyncM ε C R α :=
  ExceptT.mk (x.run.bind fun r => fin.run.bind fun
    | .ok _ => .pure r
    | .error e => .pure (.error e))

/-- What one round of a loop means for the loop: go on, leave with a value,
or leave with an error. -/
def roundOf : Except ε (β ⊕ γ) → β ⊕ Except ε γ
  | .ok (.inl b) => .inl b
  | .ok (.inr g) => .inr (.ok g)
  | .error e => .inr (.error e)

/-- `while (true)`: `body` returns on the right to leave the loop. -/
def loop (b : β) (body : β → AsyncM ε C R (β ⊕ γ)) : AsyncM ε C R γ :=
  ExceptT.mk (.iter (fun b => (body b).run.bind fun r => .pure (roundOf r)) b .pure)

/-! ## Commands of composed programs -/

section
variable {A : C → Prop}

/-- `Only` for programs that may throw. -/
def Only (A : C → Prop) (x : AsyncM ε C R α) : Prop := x.run.Only A

theorem Only.pure (a : α) : Only A (pure a : AsyncM ε C R α) := trivial

theorem Only.throw (e : ε) : Only A (throw e : AsyncM ε C R α) := trivial

theorem Only.ofExcept (r : Except ε α) : Only A (ofExcept r : AsyncM ε C R α) := trivial

theorem Only.bind {x : AsyncM ε C R α} {f : α → AsyncM ε C R δ} (hx : Only A x)
    (hf : ∀ a, Only A (f a)) : Only A (x >>= f) :=
  Prog.Only.bind hx fun | .ok a => hf a | .error _ => trivial

theorem Only.map {x : AsyncM ε C R α} {f : α → δ} (hx : Only A x) : Only A (f <$> x) :=
  Prog.Only.bind hx fun | .ok _ => trivial | .error _ => trivial

theorem Only.lift {p : Prog C R α} (hp : p.Only A) : Only A (liftM p : AsyncM ε C R α) :=
  Prog.Only.bind hp fun _ => trivial

theorem Only.attempt {x : AsyncM ε C R α} (hx : Only A x) : Only A (attempt x) :=
  Prog.Only.bind hx fun _ => trivial

theorem Only.tryCatch {x : AsyncM ε C R α} {f : ε → AsyncM ε C R α} (hx : Only A x)
    (hf : ∀ e, Only A (f e)) : Only A (tryCatch x f) :=
  Prog.Only.bind hx fun | .ok _ => trivial | .error e => hf e

theorem Only.withFinally {x : AsyncM ε C R α} {fin : AsyncM ε C R Unit} (hx : Only A x)
    (hf : Only A fin) : Only A (withFinally x fin) :=
  Prog.Only.bind hx fun _ => Prog.Only.bind hf fun | .ok _ => trivial | .error _ => trivial

theorem Only.loop {b : β} {body : β → AsyncM ε C R (β ⊕ γ)} (hb : ∀ b, Only A (body b)) :
    Only A (loop b body) :=
  ⟨fun b => Prog.Only.bind (hb b) fun _ => trivial, fun _ => trivial⟩

theorem Only.ite {c : Prop} [Decidable c] {x y : AsyncM ε C R α} (hx : Only A x) (hy : Only A y) :
    Only A (if c then x else y) := by
  split
  · exact hx
  · exact hy

end

end AsyncM

end NewsApi.Async
