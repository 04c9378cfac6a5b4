import Mathlib.Order.Nat
import NewsApi.Async.Gives

/-! # Programs that end

What a host replies depends on its phase, a number that never goes back, such as
the time on its clock. A loop may go round as often as it likes while its host is
early. Once the phase has come to some bound, every round has to come closer to
the end of the loop.

A task whose program ends in this sense does end, if it is answered again and
again and its host goes through all phases. -/
namespace NewsApi.Async

universe u

variable {C : Type} {R : C → Type} {σ : Type u} {α β γ δ ε : Type}

namespace Prog
variable (admits : Nat → (c : C) → R c → Prop)

/-- With the replies of the phases from `T` on, the program ends in `Q`. -/
def Ends {α : Type} : Prog C R α → Nat → (α → Prop) → Prop
  | .pure a, _, Q => Q a
  | .call c k, T, Q => ∀ r, admits T c r → (k r).Ends T Q
  | .iter body b k, T, Q => ∃ (late : Nat) (I : _ → Nat → Prop), T ≤ late ∧ (∃ n, I b n) ∧
      ∀ b n, I b n →
        ((body b).Ends T fun
          | .inl b => ∃ n, I b n
          | .inr g => (k g).Ends T Q) ∧
        (body b).Ends late fun
          | .inl b => ∃ m < n, I b m
          | .inr g => (k g).Ends T Q

variable {admits} {T : Nat} {Q Q' : α → Prop}

theorem Ends.mono {p : Prog C R α} (hp : p.Ends admits T Q) (hq : ∀ a, Q a → Q' a) :
    p.Ends admits T Q' := by
  induction p generalizing T with
  | pure a => exact hq a hp
  | call c k ih => exact fun r hr => ih r (hp r hr) hq
  | iter body b k ihb ihk =>
    obtain ⟨late, I, hlate, hb, hbody⟩ := hp
    refine ⟨late, I, hlate, hb, fun b n hI => ⟨ihb b (hbody b n hI).1 fun r hr => ?_,
      ihb b (hbody b n hI).2 fun r hr => ?_⟩⟩
    · cases r with
      | inl b' => exact hr
      | inr g => exact ihk g hr hq
    · cases r with
      | inl b' => exact hr
      | inr g => exact ihk g hr hq

theorem Ends.bind {p : Prog C R α} {f : α → Prog C R δ} {Q : δ → Prop}
    (hp : p.Ends admits T fun a => (f a).Ends admits T Q) : (p.bind f).Ends admits T Q := by
  induction p generalizing T with
  | pure a => exact hp
  | call c k ih => exact fun r hr => ih r (hp r hr)
  | iter body b k ihb ihk =>
    obtain ⟨late, I, hlate, hb, hbody⟩ := hp
    refine ⟨late, I, hlate, hb, fun b n hI => ⟨(hbody b n hI).1.mono fun r hr => ?_,
      (hbody b n hI).2.mono fun r hr => ?_⟩⟩
    · cases r with
      | inl b' => exact hr
      | inr g => exact ihk g hr
    · cases r with
      | inl b' => exact hr
      | inr g => exact ihk g hr

theorem bind_pure (p : Prog C R α) : p.bind .pure = p := by
  induction p with
  | pure a => rfl
  | call c k ih => simp only [Prog.bind, ih]
  | iter body b k _ ih => simp only [Prog.bind, ih]

theorem Ends.round {body : β → Prog C R (β ⊕ γ)} {b : β} {k : γ → Prog C R α}
    (hp : (Prog.iter body b k).Ends admits T Q) : (Host.round body b k).Ends admits T Q := by
  obtain ⟨late, I, hlate, ⟨n, hb⟩, hbody⟩ := hp
  refine Ends.bind ((hbody b n hb).1.mono fun r hr => ?_)
  cases r with
  | inl b' => exact ⟨late, I, hlate, hr, hbody⟩
  | inr g => exact hr

end Prog

/-! ## Hosts with phases -/

variable {h : Host C R σ} {phase : σ → Nat} {admits : Nat → (c : C) → R c → Prop}

/-- The replies of a host are those of its phase. -/
structure Host.Phased (h : Host C R σ) (phase : σ → Nat) (admits : Nat → (c : C) → R c → Prop) :
    Prop where
  anti : ∀ {T T' c r}, T ≤ T' → admits T' c r → admits T c r
  now : ∀ {c s r s'}, h.now c s = some (r, s') → phase s ≤ phase s' ∧ admits (phase s) c r
  issue : ∀ c s, phase s ≤ phase (h.issue c s)
  /-- a command that is answered later was not answered at once -/
  reply : ∀ {c r s₀ s s'}, h.now c s₀ = none → h.reply c r s = some s' →
    phase s ≤ phase s' ∧ admits (phase s) c r
  reply_phase : ∀ {c r s s'}, h.reply c r s = some s' → phase s ≤ phase s'

/-- A task that can wait where it stands. -/
def Prog.Suspended (h : Host C R σ) : Prog C R α → Prop
  | .call c _ => ∃ s, h.now c s = none
  | _ => True

theorem Prog.suspended_advance (p : Prog C R α) (s : σ) : (h.advance p s).1.Suspended h := by
  induction p generalizing s with
  | pure a => trivial
  | call c k ih =>
    simp only [Host.advance]
    split
    · exact ih _ _
    · rename_i hn
      exact ⟨s, hn⟩
  | iter body b k => trivial

theorem Prog.suspended_resume {answer : (c : C) → Option (R c)} {p p' : Prog C R α} {s s' : σ}
    (hr : h.resume answer p s = some (p', s')) : p'.Suspended h := by
  cases p with
  | pure a => cases hr
  | call c k =>
    obtain ⟨r, -, s1, -, he⟩ := Host.resume_call hr
    have hadvanced := Prog.suspended_advance (k r) s1 (h := h)
    rwa [he] at hadvanced
  | iter body b k =>
    have hadvanced := Prog.suspended_advance (Host.round body b k) s (h := h)
    rwa [Option.some.inj hr] at hadvanced

/-- A task that will end. -/
structure Ending (h : Host C R σ) (admits : Nat → (c : C) → R c → Prop) (p : Prog C R α) :
    Prop where
  ends : p.Ends admits 0 fun _ => True
  suspended : p.Suspended h

section
variable (hh : h.Phased phase admits)
include hh

theorem Prog.Ends.advance {p : Prog C R α} {s : σ} (hp : p.Ends admits 0 fun _ => True) :
    Ending h admits (h.advance p s).1 := by
  refine ⟨?_, Prog.suspended_advance p s⟩
  induction p generalizing s with
  | pure a => exact hp
  | call c k ih =>
    simp only [Host.advance]
    split
    · rename_i r s1 hn
      exact ih r (hp r (hh.anti (Nat.zero_le _) (hh.now hn).2))
    · exact hp
  | iter body b k => exact hp

/-- An answer leaves it a task that will end. -/
theorem Ending.resume {answer : (c : C) → Option (R c)} {p p' : Prog C R α} {s s' : σ}
    (hp : Ending h admits p) (hr : h.resume answer p s = some (p', s')) :
    Ending h admits p' := by
  cases p with
  | pure a => cases hr
  | call c k =>
    obtain ⟨r, -, s1, hs1, he⟩ := Host.resume_call hr
    obtain ⟨s0, hn⟩ := hp.suspended
    have hk := hp.ends r (hh.anti (Nat.zero_le _) (hh.reply hn hs1).2)
    have := Prog.Ends.advance hh hk (s := s1)
    rwa [he] at this
  | iter body b k =>
    have := Prog.Ends.advance hh hp.ends.round (s := s)
    rwa [Option.some.inj hr] at this

end

/-! ## Tasks in time -/

section
variable (h phase) (prog : Nat → Prog C R α) (state : Nat → σ)

/-- The task is answered; what else happens in this step does not set the phase back. -/
def Goes (t : Nat) : Prop :=
  ∃ answer s, h.resume answer (prog t) (state t) = some (prog (t + 1), s) ∧
    phase s ≤ phase (state (t + 1))

/-- A task from `t₀` on: it is answered again and again, and time goes by. -/
structure TaskRun (t₀ : Nat) : Prop where
  next : ∀ t ≥ t₀, Goes h phase prog state t ∨
    prog (t + 1) = prog t ∧ phase (state t) ≤ phase (state (t + 1))
  fair : ∀ t ≥ t₀, (∀ a, prog t ≠ .pure a) → ∃ u ≥ t, Goes h phase prog state u
  passes : ∀ T, ∃ t ≥ t₀, T ≤ phase (state t)

def Over (t : Nat) : Prop := ∃ u ≥ t, ∃ a, prog u = .pure a

/-- Whoever runs `p` from a phase of at least `T`, after the time `t`, comes to its end. -/
def Leads (T t : Nat) (p : Prog C R α) : Prop :=
  ∀ u ≥ t, ∀ s s', T ≤ phase s → h.advance p s = (prog u, s') → phase s' ≤ phase (state u) →
    Over prog u

end

namespace TaskRun
variable {prog : Nat → Prog C R α} {state : Nat → σ} {t₀ t u T : Nat}
  (x : TaskRun h phase prog state t₀) (hh : h.Phased phase admits)

theorem leads_mono {T' t' : Nat} {p : Prog C R α} (hp : Leads h phase prog state T t p)
    (hT : T ≤ T') (ht : t ≤ t') : Leads h phase prog state T' t' p :=
  fun u hu s s' hs => hp u (ht.trans hu) s s' (hT.trans hs)

section
include x

/-- The first answer after `t`, and the phase by then. -/
theorem answered (ht : t₀ ≤ t) (hp : ∀ a, prog t ≠ .pure a) :
    ∃ u ≥ t, prog u = prog t ∧ phase (state t) ≤ phase (state u) ∧
      Goes h phase prog state u := by
  obtain ⟨u, hu, hgoes⟩ := x.fair t ht hp
  obtain ⟨d, rfl⟩ := Nat.exists_eq_add_of_le hu
  clear hu
  induction d generalizing t with
  | zero => exact ⟨t, Nat.le_refl t, rfl, Nat.le_refl _, hgoes⟩
  | succ d ih =>
    rcases x.next t ht with hnow | ⟨hsame, hphase⟩
    · exact ⟨t, Nat.le_refl t, rfl, Nat.le_refl _, hnow⟩
    · obtain ⟨u, htu, hprog, hle, hu⟩ := ih (Nat.le_succ_of_le ht) (by rwa [hsame])
        ((Nat.add_right_comm t 1 d).trans rfl ▸ hgoes)
      exact ⟨u, by omega, hprog.trans hsame, hphase.trans hle, hu⟩

/-- A task at the head of a loop. -/
theorem leads_round {body : β → Prog C R (β ⊕ γ)} {b : β} {k : γ → Prog C R α} (ht : t₀ ≤ t)
    (hround : Leads h phase prog state T (t + 1) (Host.round body b k)) (hu : t ≤ u)
    (hp : prog u = .iter body b k) (hT : T ≤ phase (state u)) : Over prog u := by
  obtain ⟨v, huv, hv, hphase, answer, s, hr, hs⟩ := x.answered (ht.trans hu) fun a ha =>
    nomatch hp.symm.trans ha
  rw [hv, hp] at hr
  obtain ⟨w, hw, hend⟩ := hround (v + 1) (by omega) (state v) s (by omega)
    (Option.some.inj hr) hs
  exact ⟨w, by omega, hend⟩

end

section
include hh

theorem phase_le_goes (hgoes : Goes h phase prog state t) : phase (state t) ≤ phase (state (t + 1)) := by
  obtain ⟨answer, s, hr, hle⟩ := hgoes
  refine Nat.le_trans ?_ hle
  exact Host.resume_frame (T := fun s s' => phase s ≤ phase s') (fun s => Nat.le_refl _)
    (fun h h' => h.trans h') (fun c s r s' hn => (hh.now hn).1) hh.issue
    (fun c r s s' _ hr => hh.reply_phase hr) hr

end

section
include x hh

theorem phase_mono (ht : t₀ ≤ t) (htu : t ≤ u) : phase (state t) ≤ phase (state u) := by
  induction u, htu using Nat.le_induction with
  | base => exact Nat.le_refl _
  | succ u htu ih =>
    rcases x.next u (ht.trans htu) with hgoes | ⟨-, hle⟩
    · exact ih.trans (phase_le_goes hh hgoes)
    · exact ih.trans hle

/-- A task that waits for a command. -/
theorem leads_call {c : C} {k : R c → Prog C R α} (ht : t₀ ≤ t) {s₀ : σ} (hn : h.now c s₀ = none)
    (hk : ∀ r, admits T c r → Leads h phase prog state T t (k r)) (hu : t ≤ u)
    (hp : prog u = .call c k) (hT : T ≤ phase (state u)) : Over prog u := by
  obtain ⟨v, huv, hv, hphase, answer, s, hr, hs⟩ := x.answered (ht.trans hu) fun a ha =>
    nomatch hp.symm.trans ha
  rw [hv, hp] at hr
  obtain ⟨r, -, s1, hs1, he⟩ := Host.resume_call hr
  obtain ⟨hle, hadmits⟩ := hh.reply hn hs1
  obtain ⟨w, hw, hend⟩ := hk r (hh.anti (hT.trans hphase) hadmits) (v + 1) (by omega) s1 s
    (by omega) he hs
  exact ⟨w, by omega, hend⟩

/-- What follows a program that ends. -/
theorem leads_bind {p : Prog C R δ} {f : δ → Prog C R α} {Q : δ → Prop} (ht : t₀ ≤ t)
    (hp : p.Ends admits T Q) (hf : ∀ a, Q a → Leads h phase prog state T t (f a)) :
    Leads h phase prog state T t (p.bind f) := by
  induction p generalizing T t with
  | pure a => exact hf a hp
  | call c k ih =>
    intro u hu s s' hs he hs'
    simp only [Prog.bind, Host.advance] at he
    split at he
    · rename_i r s1 hn
      obtain ⟨hle, hadmits⟩ := hh.now hn
      exact ih r ht (hp r (hh.anti hs hadmits)) hf u hu s1 s' (hs.trans hle) he hs'
    · rename_i hn
      obtain ⟨hprog, hstate⟩ := Prod.mk.inj he
      exact leads_call x hh ht hn (fun r hr => ih r ht (hp r hr) hf) hu hprog.symm
        ((hs.trans (hh.issue c s)).trans (hstate ▸ hs'))
  | iter body b k ihb ihk =>
    obtain ⟨late, I, hlate, ⟨n, hb⟩, hbody⟩ := hp
    let loop := fun b => Prog.iter body b fun g => (k g).bind f
    -- a late round comes closer to the end
    have hfinal : ∀ n b, I b n → ∀ t' ≥ t, Leads h phase prog state late t' (loop b) := by
      intro n
      induction n using Nat.strong_induction_on with
      | _ n ih =>
        intro b hI t' ht' u hu s s' hs he hs'
        obtain ⟨hprog, hstate⟩ := Prod.mk.inj he
        refine leads_round x (ht.trans ht') ?_ hu hprog.symm
          (hs.trans (hstate ▸ hs'))
        refine ihb b (by omega) (hbody b n hI).2 fun r hr => ?_
        cases r with
        | inl b' =>
          obtain ⟨m, hm, hI'⟩ := hr
          exact ih m hm b' hI' (t' + 1) (by omega)
        | inr g => exact leads_mono (ihk g ht hr hf) hlate (by omega)
    obtain ⟨t₁, ht₁, hpass⟩ := x.passes late
    -- by induction on the time that is left until the host is late
    have hany : ∀ d, ∀ t' ≥ t, t₁ ≤ t' + d → ∀ n b, I b n →
        Leads h phase prog state T t' (loop b) := by
      intro d
      induction d with
      | zero =>
        intro t' ht' hd n b hI u hu s s' hs he hs'
        obtain ⟨hprog, -⟩ := Prod.mk.inj he
        have hphase : late ≤ phase (state u) := hpass.trans (phase_mono x hh ht₁ (by omega))
        have hhead : h.advance (loop b) (state u) = (prog u, state u) := by
          rw [← hprog]
          rfl
        exact hfinal n b hI t' ht' u hu _ _ hphase hhead (Nat.le_refl _)
      | succ d ih =>
        intro t' ht' hd n b hI u hu s s' hs he hs'
        obtain ⟨hprog, hstate⟩ := Prod.mk.inj he
        refine leads_round x (ht.trans ht') ?_ hu hprog.symm (hs.trans (hstate ▸ hs'))
        refine ihb b (by omega) (hbody b n hI).1 fun r hr => ?_
        cases r with
        | inl b' =>
          obtain ⟨m, hI'⟩ := hr
          exact ih (t' + 1) (by omega) (by omega) m b' hI'
        | inr g => exact leads_mono (ihk g ht hr hf) (Nat.le_refl T) (by omega)
    exact hany t₁ t (Nat.le_refl t) (by omega) n b hb

/-- **A task that will end is over some time.** -/
theorem ends (hp : Ending h admits (prog t₀)) : Over prog t₀ := by
  have hleads : ∀ {p : Prog C R α} {t : Nat}, t₀ ≤ t → (p.Ends admits 0 fun _ => True) →
      Leads h phase prog state 0 t p := by
    intro p t ht hp
    have := leads_bind x hh (f := .pure) ht hp fun a _ u hu s _ _ he _ =>
      ⟨u, Nat.le_refl u, a, (Prod.mk.inj he).1.symm⟩
    rwa [Prog.bind_pure] at this
  cases hprog : prog t₀ with
  | pure a => exact ⟨t₀, Nat.le_refl t₀, a, hprog⟩
  | call c k =>
    rw [hprog] at hp
    obtain ⟨s, hn⟩ := hp.suspended
    exact leads_call x hh (Nat.le_refl t₀) hn (fun r hr => hleads (Nat.le_refl t₀) (hp.ends r hr))
      (Nat.le_refl t₀) hprog (Nat.zero_le _)
  | iter body b k =>
    rw [hprog] at hp
    exact leads_round x (Nat.le_refl t₀) (hleads (Nat.le_succ t₀) hp.ends.round) (Nat.le_refl t₀) hprog
      (Nat.zero_le _)

end

end TaskRun

/-! ## The exception layer -/

namespace AsyncM
variable {T : Nat}

/-- `Ends` for programs that may throw. -/
def Ends (admits : Nat → (c : C) → R c → Prop) (x : AsyncM ε C R α) (T : Nat)
    (Q : Except ε α → Prop) : Prop :=
  x.run.Ends admits T Q

/-- The program returns or throws. -/
def Halts (admits : Nat → (c : C) → R c → Prop) (x : AsyncM ε C R α) (T : Nat) : Prop :=
  Ends admits x T fun _ => True

section
variable {Q : Except ε α → Prop} {Q' : Except ε δ → Prop}

theorem Ends.mono {Q₁ : Except ε α → Prop} {x : AsyncM ε C R α} (hx : Ends admits x T Q)
    (hq : ∀ r, Q r → Q₁ r) : Ends admits x T Q₁ :=
  Prog.Ends.mono hx hq

theorem Ends.pure {a : α} (h : Q (.ok a)) : Ends admits (pure a : AsyncM ε C R α) T Q := h

theorem Ends.bind {x : AsyncM ε C R α} {f : α → AsyncM ε C R δ}
    (hx : Ends admits x T fun
      | .ok a => Ends admits (f a) T Q'
      | .error e => Q' (.error e)) : Ends admits (x >>= f) T Q' :=
  Prog.Ends.bind (Prog.Ends.mono hx fun
    | .ok _ => fun h => h
    | .error _ => fun h => h)

/-- A command before the rest of a block. -/
theorem Ends.command {c : C} {f : R c → AsyncM ε C R δ}
    (hf : ∀ r, admits T c r → Ends admits (f r) T Q') :
    Ends admits (liftM (Prog.command c : Prog C R (R c)) >>= f) T Q' :=
  .bind (Prog.Ends.bind hf)

theorem Ends.map {x : AsyncM ε C R α} {f : α → δ} (hx : Ends admits x T fun r => Q' (r.map f)) :
    Ends admits (f <$> x) T Q' :=
  Prog.Ends.bind (Prog.Ends.mono hx fun
    | .ok _ => fun h => h
    | .error _ => fun h => h)

theorem Ends.tryCatch {x : AsyncM ε C R α} {f : ε → AsyncM ε C R α}
    (hx : Ends admits x T fun
      | .ok a => Q (.ok a)
      | .error e => Ends admits (f e) T Q) : Ends admits (tryCatch x f) T Q :=
  Prog.Ends.bind (Prog.Ends.mono hx fun
    | .ok _ => fun h => h
    | .error _ => fun h => h)

/-- The first action of a block throws, or the rest of it ends well. -/
theorem Halts.andThen {x : AsyncM ε C R α} {f : α → AsyncM ε C R δ} (hx : Halts admits x T)
    (hf : ∀ a, Ends admits (f a) T Q') (he : ∀ e, Q' (.error e)) :
    Ends admits (x >>= f) T Q' :=
  .bind (hx.mono fun
    | .ok a => fun _ => hf a
    | .error e => fun _ => he e)

end

theorem Halts.pure (a : α) : Halts admits (pure a : AsyncM ε C R α) T := trivial

theorem Halts.throw (e : ε) : Halts admits (throw e : AsyncM ε C R α) T := trivial

theorem Halts.ofExcept (r : Except ε α) : Halts admits (ofExcept r : AsyncM ε C R α) T := trivial

theorem Halts.command (c : C) :
    Halts admits (liftM (Prog.command c : Prog C R (R c)) : AsyncM ε C R (R c)) T :=
  fun _ _ => trivial

theorem Halts.bind {x : AsyncM ε C R α} {f : α → AsyncM ε C R δ} (hx : Halts admits x T)
    (hf : ∀ a, Halts admits (f a) T) : Halts admits (x >>= f) T :=
  hx.andThen hf fun _ => trivial

theorem Halts.map {x : AsyncM ε C R α} {f : α → δ} (hx : Halts admits x T) :
    Halts admits (f <$> x) T :=
  Ends.map (hx.mono fun _ _ => trivial)

theorem Halts.attempt {x : AsyncM ε C R α} (hx : Halts admits x T) : Halts admits (attempt x) T :=
  Prog.Ends.bind (Prog.Ends.mono hx fun _ _ => trivial)

theorem Halts.tryCatch {x : AsyncM ε C R α} {f : ε → AsyncM ε C R α} (hx : Halts admits x T)
    (hf : ∀ e, Halts admits (f e) T) : Halts admits (tryCatch x f) T :=
  Ends.tryCatch (hx.mono fun
    | .ok _ => fun _ => trivial
    | .error e => fun _ => hf e)

theorem Halts.withFinally {x : AsyncM ε C R α} {fin : AsyncM ε C R Unit} (hx : Halts admits x T)
    (hfin : Halts admits fin T) : Halts admits (withFinally x fin) T :=
  Prog.Ends.bind (Prog.Ends.mono hx fun _ _ => Prog.Ends.bind (Prog.Ends.mono hfin fun
    | .ok _ => fun _ => trivial
    | .error _ => fun _ => trivial))

theorem Halts.ite {c : Prop} [Decidable c] {x y : AsyncM ε C R α} (hx : Halts admits x T)
    (hy : Halts admits y T) : Halts admits (if c then x else y) T := by
  split
  · exact hx
  · exact hy

/-- What a round of a loop has to ensure. -/
def GoesOn (I : β → Prop) : Except ε (β ⊕ γ) → Prop
  | .ok (.inl b) => I b
  | _ => True

/-- The rule of a loop: a round keeps `I`, and brings the loop closer to its end
once the host is late. -/
theorem Halts.loop {b : β} {body : β → AsyncM ε C R (β ⊕ γ)} (late : Nat) (I : β → Nat → Prop)
    (hlate : T ≤ late) (hb : ∃ n, I b n)
    (hbody : ∀ b n, I b n → Ends admits (body b) T (GoesOn fun b => ∃ n, I b n) ∧
      Ends admits (body b) late (GoesOn fun b => ∃ m < n, I b m)) :
    Halts admits (loop b body) T := by
  refine ⟨late, I, hlate, hb, fun b n hI => ⟨Prog.Ends.bind ?_, Prog.Ends.bind ?_⟩⟩
  · refine (hbody b n hI).1.mono fun
      | .ok (.inl _) => id
      | .ok (.inr _) => fun _ => trivial
      | .error _ => fun _ => trivial
  · refine (hbody b n hI).2.mono fun
      | .ok (.inl _) => id
      | .ok (.inr _) => fun _ => trivial
      | .error _ => fun _ => trivial

end AsyncM

end NewsApi.Async
