import NewsApi.Async.Waiting

/-! # Programs that are answered well

`Only` bounds the commands of a program whatever it is answered. Here the
answers satisfy `G`, and the commands may depend on them: each satisfies `A`,
and the program ends in `Q`. No state is involved, so what is known of a
suspended program survives everything that others do. -/
namespace NewsApi.Async

universe u

variable {C : Type} {R : C → Type} {σ : Type u} {α β γ δ ε : Type}

namespace Prog
variable (G : (c : C) → R c → Prop) (A : C → Prop)

def Gives {α : Type} : Prog C R α → (α → Prop) → Prop
  | .pure a, Q => Q a
  | .call c k, Q => A c ∧ ∀ r, G c r → (k r).Gives Q
  | .iter body b k, Q => ∃ I : _ → Prop, I b ∧ ∀ b, I b → (body b).Gives fun
    | .inl b => I b
    | .inr g => (k g).Gives Q

variable {G A} {Q Q' : α → Prop}

theorem Gives.mono {p : Prog C R α} (hp : p.Gives G A Q) (hq : ∀ a, Q a → Q' a) :
    p.Gives G A Q' := by
  induction p with
  | pure a => exact hq a hp
  | call c k ih => exact ⟨hp.1, fun r hr => ih r (hp.2 r hr) hq⟩
  | iter body b k ihb ihk =>
    obtain ⟨I, hb, hbody⟩ := hp
    refine ⟨I, hb, fun b hI => ihb b (hbody b hI) fun r hr => ?_⟩
    cases r with
    | inl b' => exact hr
    | inr g => exact ihk g hr hq

theorem Gives.bind {p : Prog C R α} {f : α → Prog C R δ} {Q : δ → Prop}
    (hp : p.Gives G A fun a => (f a).Gives G A Q) : (p.bind f).Gives G A Q := by
  induction p with
  | pure a => exact hp
  | call c k ih => exact ⟨hp.1, fun r hr => ih r (hp.2 r hr)⟩
  | iter body b k ihb ihk =>
    obtain ⟨I, hb, hbody⟩ := hp
    refine ⟨I, hb, fun b hI => (hbody b hI).mono fun r hr => ?_⟩
    cases r with
    | inl b' => exact hr
    | inr g => exact ihk g hr

theorem Gives.command {c : C} {Q : R c → Prop} (hc : A c) (hq : ∀ r, G c r → Q r) :
    (command c : Prog C R (R c)).Gives G A Q :=
  ⟨hc, hq⟩

/-- Commands that are in order whatever the answers are. -/
theorem Only.gives {B : C → Prop} {p : Prog C R α} (hp : p.Only B) (hB : ∀ c, B c → A c) :
    p.Gives G A fun _ => True := by
  induction p with
  | pure a => trivial
  | call c k ih => exact ⟨hB c hp.1, fun r _ => ih r (hp.2 r)⟩
  | iter body b k ihb ihk =>
    refine ⟨fun _ => True, trivial, fun b _ => (ihb b (hp.1 b)).mono fun r _ => ?_⟩
    cases r with
    | inl b' => trivial
    | inr g => exact ihk g (hp.2 g)

/-- Of a program of which nothing is asked, nothing is known. -/
theorem Gives.any (p : Prog C R α) : p.Gives G (fun _ => True) fun _ => True := by
  induction p with
  | pure a => trivial
  | call c k ih => exact ⟨trivial, fun r _ => ih r⟩
  | iter body b k ihb ihk =>
    refine ⟨fun _ => True, trivial, fun b _ => (ihb b).mono fun r _ => ?_⟩
    cases r with
    | inl b' => trivial
    | inr g => exact ihk g

theorem Gives.weaken {G' : (c : C) → R c → Prop} {A' : C → Prop} {p : Prog C R α}
    (hp : p.Gives G A Q) (hG : ∀ c r, G' c r → G c r) (hA : ∀ c, A c → A' c) :
    p.Gives G' A' Q := by
  induction p with
  | pure a => exact hp
  | call c k ih => exact ⟨hA c hp.1, fun r hr => ih r (hp.2 r (hG c r hr))⟩
  | iter body b k ihb ihk =>
    obtain ⟨I, hb, hbody⟩ := hp
    refine ⟨I, hb, fun b hI => (ihb b (hbody b hI)).mono fun r hr => ?_⟩
    cases r with
    | inl b' => exact hr
    | inr g => exact ihk g hr

theorem Gives.pending {p : Prog C R α} {c : C} (hp : p.Gives G A Q) (h : p.pending = some c) :
    A c := by
  obtain ⟨k, rfl⟩ := pending_eq_some h
  exact hp.1

theorem Gives.round {body : β → Prog C R (β ⊕ γ)} {b : β} {k : γ → Prog C R α}
    (hp : (Prog.iter body b k).Gives G A Q) : (Host.round body b k).Gives G A Q := by
  obtain ⟨I, hb, hbody⟩ := hp
  refine Gives.bind ((hbody b hb).mono fun r hr => ?_)
  cases r with
  | inl b' => exact ⟨I, hr, hbody⟩
  | inr g => exact hr

/-! ## Runs

`P` is an invariant of the commands in `A`, when they are answered with `G`. -/

section
variable {h : Host C R σ} {P : σ → Prop}
  (now : ∀ c s r s', A c → P s → h.now c s = some (r, s') → G c r ∧ P s')
  (issue : ∀ c s, A c → P s → P (h.issue c s))
include now issue

theorem Gives.advance {p : Prog C R α} {s : σ} (hp : p.Gives G A Q) (hs : P s) :
    (h.advance p s).1.Gives G A Q ∧ P (h.advance p s).2 := by
  induction p generalizing s with
  | pure a => exact ⟨hp, hs⟩
  | call c k ih =>
    simp only [Host.advance]
    split
    · rename_i r s1 hn
      obtain ⟨hr, hs1⟩ := now c s r s1 hp.1 hs hn
      exact ih r (hp.2 r hr) hs1
    · exact ⟨hp, issue c s hp.1 hs⟩
  | iter body b k => exact ⟨hp, hs⟩

theorem Gives.resume {answer : (c : C) → Option (R c)} {p p' : Prog C R α} {s s' : σ}
    (good : ∀ c r s1, A c → p.pending = some c → answer c = some r → h.reply c r s = some s1 →
      G c r)
    (reply : ∀ c r s s', P s → h.reply c r s = some s' → P s') (hp : p.Gives G A Q) (hs : P s)
    (hr : h.resume answer p s = some (p', s')) : p'.Gives G A Q ∧ P s' := by
  cases p with
  | pure a => cases hr
  | call c k =>
    obtain ⟨r, ha, s1, hs1, he⟩ := Host.resume_call hr
    have := Gives.advance now issue (hp.2 r (good c r s1 hp.1 rfl ha hs1)) (reply c r s s1 hs hs1)
    rwa [he] at this
  | iter body b k =>
    have := Gives.advance now issue hp.round hs
    rwa [Option.some.inj hr] at this

end

end Prog

/-- Only the answer to the pending command counts. -/
theorem Host.resume_congr {h : Host C R σ} {p : Prog C R α} {s : σ}
    {answer answer' : (c : C) → Option (R c)}
    (same : ∀ c, p.pending = some c → answer c = answer' c) :
    h.resume answer p s = h.resume answer' p s := by
  cases p with
  | call c k =>
    simp only [resume]
    rw [same c rfl]
  | _ => rfl

/-! ## The exception layer -/

namespace AsyncM
variable {G : (c : C) → R c → Prop} {A : C → Prop}

/-- `Gives` for programs that may throw. -/
def Gives (G : (c : C) → R c → Prop) (A : C → Prop) (x : AsyncM ε C R α) (Q : Except ε α → Prop) :
    Prop :=
  x.run.Gives G A Q

variable {Q : Except ε α → Prop} {Q' : Except ε δ → Prop}

theorem Gives.mono {Q₁ : Except ε α → Prop} {x : AsyncM ε C R α} (hx : Gives G A x Q)
    (hq : ∀ r, Q r → Q₁ r) : Gives G A x Q₁ :=
  Prog.Gives.mono hx hq

theorem Gives.pure {a : α} (h : Q (.ok a)) : Gives G A (pure a : AsyncM ε C R α) Q := h

theorem Gives.throw {e : ε} (h : Q (.error e)) : Gives G A (throw e : AsyncM ε C R α) Q := h

theorem Gives.ofExcept {r : Except ε α} (h : Q r) :
    Gives G A (ofExcept r : AsyncM ε C R α) Q := h

/-- What a block ensures, from what its first action does. -/
theorem Gives.bind {x : AsyncM ε C R α} {f : α → AsyncM ε C R δ}
    (hx : Gives G A x fun
      | .ok a => Gives G A (f a) Q'
      | .error e => Q' (.error e)) : Gives G A (x >>= f) Q' :=
  Prog.Gives.bind (Prog.Gives.mono hx fun
    | .ok _ => fun h => h
    | .error _ => fun h => h)

theorem Gives.lift {p : Prog C R α} (hp : p.Gives G A fun a => Q (.ok a)) :
    Gives G A (liftM p : AsyncM ε C R α) Q :=
  Prog.Gives.bind (Prog.Gives.mono hp fun _ h => h)

theorem Gives.map {x : AsyncM ε C R α} {f : α → δ} (hx : Gives G A x fun r => Q' (r.map f)) :
    Gives G A (f <$> x) Q' :=
  Prog.Gives.bind (Prog.Gives.mono hx fun
    | .ok _ => fun h => h
    | .error _ => fun h => h)

theorem Gives.attempt {x : AsyncM ε C R α} {Q : Except ε (Except ε α) → Prop}
    (hx : Gives G A x fun r => Q (.ok r)) : Gives G A (attempt x) Q :=
  Prog.Gives.bind (Prog.Gives.mono hx fun _ h => h)

theorem Gives.tryCatch {x : AsyncM ε C R α} {f : ε → AsyncM ε C R α}
    (hx : Gives G A x fun
      | .ok a => Q (.ok a)
      | .error e => Gives G A (f e) Q) : Gives G A (tryCatch x f) Q :=
  Prog.Gives.bind (Prog.Gives.mono hx fun
    | .ok _ => fun h => h
    | .error _ => fun h => h)

theorem Gives.withFinally {x : AsyncM ε C R α} {fin : AsyncM ε C R Unit}
    (hx : Gives G A x fun r => Gives G A fin fun f => Q (Host.finallyOf r f)) :
    Gives G A (withFinally x fin) Q :=
  Prog.Gives.bind (Prog.Gives.mono hx fun _ h => Prog.Gives.bind (Prog.Gives.mono h fun
    | .ok _ => fun h => h
    | .error _ => fun h => h))

theorem Gives.ite {c : Prop} [Decidable c] {x y : AsyncM ε C R α} (hx : Gives G A x Q)
    (hy : Gives G A y Q) : Gives G A (if c then x else y) Q := by
  split
  · exact hx
  · exact hy

/-- A loop with invariant `I`. -/
theorem Gives.loop {b : β} {body : β → AsyncM ε C R (β ⊕ γ)} {Q : Except ε γ → Prop}
    (I : β → Prop) (hb : I b)
    (hbody : ∀ b, I b → Gives G A (body b) fun
      | .ok (.inl b) => I b
      | .ok (.inr g) => Q (.ok g)
      | .error e => Q (.error e)) : Gives G A (loop b body) Q :=
  ⟨I, hb, fun b hI => Prog.Gives.bind (Prog.Gives.mono (hbody b hI) fun
    | .ok (.inl _) => fun h => h
    | .ok (.inr _) => fun h => h
    | .error _ => fun h => h)⟩

/-- Nothing is said of a program that throws. -/
def IfOk (P : α → Prop) : Except ε α → Prop
  | .ok a => P a
  | .error _ => True

theorem Only.gives {B : C → Prop} {x : AsyncM ε C R α} (hx : Only B x) (hB : ∀ c, B c → A c) :
    Gives G A x fun _ => True :=
  Prog.Only.gives hx hB

/-- A block whose first action is in order whatever the answers are. -/
theorem Only.andThen {B : C → Prop} {x : AsyncM ε C R α} {f : α → AsyncM ε C R δ} (hx : Only B x)
    (hB : ∀ c, B c → A c) (hf : ∀ a, Gives G A (f a) Q') (he : ∀ e, Q' (.error e)) :
    Gives G A (x >>= f) Q' :=
  .bind ((Only.gives hx hB).mono fun
    | .ok a => fun _ => hf a
    | .error e => fun _ => he e)

/-- A block of which only the value matters. -/
theorem Gives.andThen {P : α → Prop} {P' : δ → Prop} {x : AsyncM ε C R α} {f : α → AsyncM ε C R δ}
    (hx : Gives G A x (IfOk P)) (hf : ∀ a, P a → Gives G A (f a) (IfOk P')) :
    Gives G A (x >>= f) (IfOk P') :=
  .bind (hx.mono fun
    | .ok a => hf a
    | .error _ => id)

/-! ### Commands alone -/

/-- With good answers the commands are in order. -/
def Keeps (G : (c : C) → R c → Prop) (A : C → Prop) (x : AsyncM ε C R α) : Prop :=
  Gives G A x fun _ => True

theorem Gives.keeps {x : AsyncM ε C R α} (hx : Gives G A x Q) : Keeps G A x :=
  hx.mono fun _ _ => trivial

theorem Keeps.pure (a : α) : Keeps G A (pure a : AsyncM ε C R α) := trivial

theorem Keeps.throw (e : ε) : Keeps G A (throw e : AsyncM ε C R α) := trivial

theorem Keeps.bind {x : AsyncM ε C R α} {f : α → AsyncM ε C R δ} (hx : Keeps G A x)
    (hf : ∀ a, Keeps G A (f a)) : Keeps G A (x >>= f) :=
  Gives.bind (hx.mono fun
    | .ok a => fun _ => hf a
    | .error _ => fun _ => trivial)

theorem Keeps.map {x : AsyncM ε C R α} {f : α → δ} (hx : Keeps G A x) : Keeps G A (f <$> x) :=
  Gives.map (hx.mono fun _ _ => trivial)

theorem Keeps.lift {p : Prog C R α} (hp : p.Gives G A fun _ => True) :
    Keeps G A (liftM p : AsyncM ε C R α) :=
  Gives.lift hp

theorem Keeps.attempt {x : AsyncM ε C R α} (hx : Keeps G A x) : Keeps G A (attempt x) :=
  Gives.attempt (hx.mono fun _ _ => trivial)

theorem Keeps.tryCatch {x : AsyncM ε C R α} {f : ε → AsyncM ε C R α} (hx : Keeps G A x)
    (hf : ∀ e, Keeps G A (f e)) : Keeps G A (tryCatch x f) :=
  Gives.tryCatch (hx.mono fun
    | .ok _ => fun _ => trivial
    | .error e => fun _ => hf e)

theorem Keeps.withFinally {x : AsyncM ε C R α} {fin : AsyncM ε C R Unit} (hx : Keeps G A x)
    (hfin : Keeps G A fin) : Keeps G A (withFinally x fin) :=
  Gives.withFinally (hx.mono fun _ _ => hfin)

theorem Keeps.loop {b : β} {body : β → AsyncM ε C R (β ⊕ γ)} (hbody : ∀ b, Keeps G A (body b)) :
    Keeps G A (loop b body) :=
  Gives.loop (fun _ => True) trivial fun b _ => (hbody b).mono fun
    | .ok (.inl _) => fun _ => trivial
    | .ok (.inr _) => fun _ => trivial
    | .error _ => fun _ => trivial

theorem Keeps.ite {c : Prop} [Decidable c] {x y : AsyncM ε C R α} (hx : Keeps G A x)
    (hy : Keeps G A y) : Keeps G A (if c then x else y) :=
  Gives.ite hx hy

end AsyncM

end NewsApi.Async
