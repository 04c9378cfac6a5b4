import NewsApi.Async.Host

/-! # Traces

A host that writes down what its program does and what comes of it. The log
takes no part in the run (`advance_traced`, `resume_traced`); it only says
afterwards which commands were given, in which states and with which answers. -/
namespace NewsApi.Async

universe u

/-- A command answered at once, a command sent, an answer that came later. -/
inductive Act (C : Type) (R : C → Type) (σ : Type u) where
  | did (c : C) (r : R c) (s s' : σ)
  | sent (c : C) (s : σ)
  | answered (c : C) (r : R c) (s : σ)

/-- The state in which a command was given, or after an answer. -/
def Act.state {C : Type} {R : C → Type} {σ : Type u} : Act C R σ → σ
  | .did _ _ s _ => s
  | .sent _ s => s
  | .answered _ _ s => s

structure Traced (C : Type) (R : C → Type) (σ : Type u) where
  state : σ
  /-- newest first -/
  log : List (Act C R σ)

variable {C : Type} {R : C → Type} {σ : Type u} {α β γ δ ε : Type}

/-- The state changes, the log does not. -/
def Traced.setState (t : Traced C R σ) (s : σ) : Traced C R σ := { t with state := s }

@[simp] theorem Traced.setState_state (t : Traced C R σ) (s : σ) : (t.setState s).state = s := rfl

@[simp] theorem Traced.setState_log (t : Traced C R σ) (s : σ) : (t.setState s).log = t.log := rfl

namespace Host
variable (h : Host C R σ)

def traced : Host C R (Traced C R σ) where
  now c t := (h.now c t.state).map fun (r, s) => (r, ⟨s, .did c r t.state s :: t.log⟩)
  issue c t := ⟨h.issue c t.state, .sent c t.state :: t.log⟩
  reply c r t := (h.reply c r t.state).map fun s => ⟨s, .answered c r s :: t.log⟩

variable {h} {c : C} {t t' : Traced C R σ}

/-! ## The log takes no part -/

theorem advance_traced (p : Prog C R α) (t : Traced C R σ) :
    (h.traced.advance p t).1 = (h.advance p t.state).1 ∧
      (h.traced.advance p t).2.state = (h.advance p t.state).2 := by
  induction p generalizing t with
  | pure a => exact ⟨rfl, rfl⟩
  | call c k ih =>
    simp only [advance, traced]
    cases hn : h.now c t.state with
    | none => exact ⟨rfl, rfl⟩
    | some next => exact ih next.1 _
  | iter body b k => exact ⟨rfl, rfl⟩

theorem resume_traced (answer : (c : C) → Option (R c)) (p : Prog C R α) (t : Traced C R σ) :
    (h.traced.resume answer p t).map (fun next => (next.1, next.2.state)) =
      h.resume answer p t.state := by
  have hadvance : ∀ (p : Prog C R α) (t : Traced C R σ),
      ((h.traced.advance p t).1, (h.traced.advance p t).2.state) = h.advance p t.state :=
    fun p t => Prod.ext (advance_traced p t).1 (advance_traced p t).2
  cases p with
  | pure a => rfl
  | iter body b k => exact congrArg some (hadvance _ t)
  | call c k =>
    cases ha : answer c with
    | none => simp [resume, ha]
    | some r =>
      have hreply : h.traced.reply c r t =
          (h.reply c r t.state).map fun s => ⟨s, .answered c r s :: t.log⟩ := rfl
      cases hr : h.reply c r t.state with
      | none => simp [resume, ha, hreply, hr]
      | some s => simpa [resume, ha, hreply, hr] using hadvance (k r) ⟨s, .answered c r s :: t.log⟩

/-! ## The log grows -/

/-- Later, and what was done meanwhile was done in states of `P`, if `P` held
before. -/
structure Since (P : σ → Prop) (t t' : Traced C R σ) : Prop where
  kept : P t.state → P t'.state
  newer : ∃ newer, t'.log = newer ++ t.log ∧ (P t.state → ∀ a ∈ newer, P a.state)

section
variable {P : σ → Prop}

theorem Since.refl (t : Traced C R σ) : Since P t t := ⟨id, [], rfl, fun _ _ => nofun⟩

theorem Since.trans {t t' t'' : Traced C R σ} (h : Since P t t') (h' : Since P t' t'') :
    Since P t t'' := by
  obtain ⟨newer, hlog, hnewer⟩ := h.newer
  obtain ⟨newer', hlog', hnewer'⟩ := h'.newer
  refine ⟨h'.kept ∘ h.kept, newer' ++ newer, by rw [hlog', hlog, List.append_assoc], ?_⟩
  intro hp a ha
  rcases List.mem_append.mp ha with ha | ha
  · exact hnewer' (h.kept hp) a ha
  · exact hnewer hp a ha

theorem Since.act {a : Act C R σ} {s : σ} (hs : P t.state → P s) (ha : P t.state → P a.state) :
    Since P t ⟨s, a :: t.log⟩ :=
  ⟨hs, [a], rfl, fun hp _ hmem => List.mem_singleton.mp hmem ▸ ha hp⟩

variable (now : ∀ c s r s', h.now c s = some (r, s') → P s → P s')
  (issue : ∀ c s, P s → P (h.issue c s)) (reply : ∀ c r s s', h.reply c r s = some s' → P s → P s')

include now

theorem since_now {r : R c} (hn : h.traced.now c t = some (r, t')) : Since P t t' := by
  obtain ⟨next, hnext, heq⟩ := Option.map_eq_some_iff.mp hn
  cases heq
  exact .act (now c t.state _ _ hnext) id

include issue

theorem since_advance (p : Prog C R α) (t : Traced C R σ) : Since P t (h.traced.advance p t).2 :=
  advance_frame .refl .trans (fun _ _ _ _ => since_now now)
    (fun c t => .act (issue c t.state) id) p t

include reply

theorem since_resume {answer : (c : C) → Option (R c)} {p p' : Prog C R α}
    (hr : h.traced.resume answer p t = some (p', t')) : Since P t t' := by
  refine resume_frame .refl .trans (fun _ _ _ _ => since_now now)
    (fun c t => .act (issue c t.state) id) (fun c r t t' _ hr => ?_) hr
  obtain ⟨s, hs, rfl⟩ := Option.map_eq_some_iff.mp hr
  exact .act (reply c r t.state s hs) (reply c r t.state s hs)

end

/-! ## Rules -/

section
variable {K : Contract (Traced C R σ)} {Q : R c → Traced C R σ → Prop}

theorem wp_did {r : R c} {s : σ} (hn : h.now c t.state = some (r, s))
    (hq : Q r ⟨s, .did c r t.state s :: t.log⟩) : h.traced.wp K (.command c) Q t :=
  wp_now (by simp [traced, hn]) hq

theorem wp_sent (hn : h.now c t.state = none)
    (hi : K.inv ⟨h.issue c t.state, .sent c t.state :: t.log⟩)
    (hq : ∀ t', K.rely ⟨h.issue c t.state, .sent c t.state :: t.log⟩ t' → K.inv t' →
      ∀ r s, h.reply c r t'.state = some s → Q r ⟨s, .answered c r s :: t'.log⟩) :
    h.traced.wp K (.command c) Q t := by
  refine wp_wait (by simp [traced, hn]) hi fun t' h1 h2 r t'' h3 => ?_
  obtain ⟨s, hs, rfl⟩ := Option.map_eq_some_iff.mp h3
  exact hq t' h1 h2 r s hs

end

end Host

/-! ## Programs whose rounds begin with a command -/

namespace Prog
variable {A : C → Prop}

/-- Every round of every loop begins with a command of `A`. -/
def Rounds (A : C → Prop) {α : Type} : Prog C R α → Prop
  | .pure _ => True
  | .call _ k => ∀ r, (k r).Rounds A
  | .iter body _ k => (∀ b, (∃ c f, body b = .call c f ∧ A c) ∧ (body b).Rounds A) ∧
      ∀ g, (k g).Rounds A

theorem Rounds.bind {p : Prog C R α} {f : α → Prog C R δ} (hp : p.Rounds A)
    (hf : ∀ a, (f a).Rounds A) : (p.bind f).Rounds A := by
  induction p with
  | pure a => exact hf a
  | call c k ih => exact fun r => ih r (hp r) hf
  | iter body b k _ ihk => exact ⟨hp.1, fun g => ihk g (hp.2 g) hf⟩

theorem Rounds.round {body : β → Prog C R (β ⊕ γ)} {b : β} {k : γ → Prog C R α}
    (hp : (Prog.iter body b k).Rounds A) : (Host.round body b k).Rounds A := by
  refine Rounds.bind (hp.1 b).2 fun r => ?_
  cases r with
  | inl b' => exact hp
  | inr g => exact hp.2 g

variable {h : Host C R σ}

theorem Rounds.advance {p : Prog C R α} (hp : p.Rounds A) (s : σ) :
    (h.advance p s).1.Rounds A := by
  induction p generalizing s with
  | pure a => exact hp
  | call c k ih =>
    simp only [Host.advance]
    split
    · exact ih _ (hp _) _
    · exact hp
  | iter body b k => exact hp

theorem Rounds.resume {answer : (c : C) → Option (R c)} {p p' : Prog C R α} {s s' : σ}
    (hp : p.Rounds A) (hr : h.resume answer p s = some (p', s')) : p'.Rounds A := by
  cases p with
  | pure a => cases hr
  | call c k =>
    obtain ⟨r, -, s1, -, he⟩ := Host.resume_call hr
    have := (hp r).advance (h := h) s1
    rwa [he] at this
  | iter body b k =>
    have := hp.round.advance (h := h) s
    rwa [Option.some.inj hr] at this

end Prog

namespace AsyncM
variable {A : C → Prop}

def Rounds (A : C → Prop) (x : AsyncM ε C R α) : Prop := x.run.Rounds A

theorem Rounds.bind {x : AsyncM ε C R α} {f : α → AsyncM ε C R δ} (hx : Rounds A x)
    (hf : ∀ a, Rounds A (f a)) : Rounds A (x >>= f) :=
  Prog.Rounds.bind hx fun | .ok a => hf a | .error _ => trivial

theorem Rounds.lift {p : Prog C R α} (hp : p.Rounds A) : Rounds A (liftM p : AsyncM ε C R α) :=
  Prog.Rounds.bind hp fun _ => trivial

theorem Rounds.attempt {x : AsyncM ε C R α} (hx : Rounds A x) : Rounds A (attempt x) :=
  Prog.Rounds.bind hx fun _ => trivial

theorem Rounds.tryCatch {x : AsyncM ε C R α} {f : ε → AsyncM ε C R α} (hx : Rounds A x)
    (hf : ∀ e, Rounds A (f e)) : Rounds A (tryCatch x f) :=
  Prog.Rounds.bind hx fun | .ok _ => trivial | .error e => hf e

theorem Rounds.withFinally {x : AsyncM ε C R α} {fin : AsyncM ε C R Unit} (hx : Rounds A x)
    (hf : Rounds A fin) : Rounds A (withFinally x fin) :=
  Prog.Rounds.bind hx fun _ => Prog.Rounds.bind hf fun | .ok _ => trivial | .error _ => trivial

theorem Rounds.loop {b : β} {body : β → AsyncM ε C R (β ⊕ γ)}
    (hb : ∀ b, (∃ c f, (body b).run = .call c f ∧ A c) ∧ Rounds A (body b)) :
    Rounds A (loop b body) := by
  refine ⟨fun b => ⟨?_, Prog.Rounds.bind (hb b).2 fun _ => trivial⟩, fun _ => trivial⟩
  obtain ⟨c, f, hc, ha⟩ := (hb b).1
  refine ⟨c, fun r => (f r).bind fun r => .pure (roundOf r), ?_, ha⟩
  show (body b).run.bind _ = _
  rw [hc]
  rfl

end AsyncM

end NewsApi.Async
