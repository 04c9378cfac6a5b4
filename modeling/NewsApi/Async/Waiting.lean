import NewsApi.Async.Trace

/-! # What a suspended program waits for -/
namespace NewsApi.Async

universe u

variable {C : Type} {R : C → Type} {σ : Type u} {α β γ : Type}

namespace Prog

/-- The command whose answer the program waits for. -/
def pending {α : Type} : Prog C R α → Option C
  | .call c _ => some c
  | _ => none

variable {A : C → Prop} {p p' : Prog C R α} {c : C}

theorem pending_eq_some (h : p.pending = some c) : ∃ k, p = .call c k := by
  cases p with
  | pure a => cases h
  | call c' k => cases h; exact ⟨k, rfl⟩
  | iter body b k => cases h

theorem Only.pending (hp : p.Only A) (h : p.pending = some c) : A c := by
  obtain ⟨k, rfl⟩ := pending_eq_some h
  exact hp.1

theorem Only.advance {h : Host C R σ} (hp : p.Only A) (s : σ) : (h.advance p s).1.Only A := by
  induction p generalizing s with
  | pure a => exact hp
  | call c k ih =>
    simp only [Host.advance]
    split
    · exact ih _ (hp.2 _) _
    · exact hp
  | iter body b k => exact hp

theorem Only.round {body : β → Prog C R (β ⊕ γ)} {b : β} {k : γ → Prog C R α}
    (hp : (Prog.iter body b k).Only A) : (Host.round body b k).Only A := by
  refine Only.bind (hp.1 b) fun r => ?_
  cases r with
  | inl b' => exact hp
  | inr g => exact hp.2 g

/-- A program keeps to its commands. -/
theorem Only.resume {h : Host C R σ} {answer : (c : C) → Option (R c)} {s s' : σ}
    (hp : p.Only A) (hr : h.resume answer p s = some (p', s')) : p'.Only A := by
  cases p with
  | pure a => cases hr
  | call c k =>
    obtain ⟨r, -, s1, -, he⟩ := Host.resume_call hr
    have := (hp.2 r).advance (h := h) s1
    rwa [he] at this
  | iter body b k =>
    have := hp.round.advance (h := h) s
    rwa [Option.some.inj hr] at this

end Prog

namespace Host
variable {h : Host C R σ} {T : σ → σ → Prop}

/-- A step that began in `s`: the program waits for nothing, or has just sent
the command that it waits for. -/
def Sends (h : Host C R σ) (T : σ → σ → Prop) (s : σ) (p : Prog C R α) (s' : σ) : Prop :=
  p.pending = none ∧ T s s' ∨ ∃ c s1, p.pending = some c ∧ T s s1 ∧ s' = h.issue c s1

section
variable (refl : ∀ s, T s s) (trans : ∀ {s t u}, T s t → T t u → T s u)
  (now : ∀ c s r s', h.now c s = some (r, s') → T s s')

include refl trans now

theorem advance_sends (p : Prog C R α) (s : σ) :
    h.Sends T s (h.advance p s).1 (h.advance p s).2 := by
  induction p generalizing s with
  | pure a => exact .inl ⟨rfl, refl s⟩
  | call c k ih =>
    simp only [advance]
    split
    · rename_i r s1 hn
      have ht := now c s r s1 hn
      rcases ih r s1 with ⟨hp, h1⟩ | ⟨c', s2, hp, h1, he⟩
      · exact .inl ⟨hp, trans ht h1⟩
      · exact .inr ⟨c', s2, hp, trans ht h1, he⟩
    · exact .inr ⟨c, s, rfl, refl s, rfl⟩
  | iter body b k => exact .inl ⟨rfl, refl s⟩

theorem resume_sends {answer : (c : C) → Option (R c)} {p p' : Prog C R α} {s s' : σ}
    (reply : ∀ c r s s', h.reply c r s = some s' → T s s')
    (hr : h.resume answer p s = some (p', s')) : h.Sends T s p' s' := by
  cases p with
  | pure a => cases hr
  | call c k =>
    obtain ⟨r, -, s1, hs1, he⟩ := resume_call hr
    have hsends := advance_sends refl trans now (k r) s1
    rw [he] at hsends
    have ht := reply c r s s1 hs1
    rcases hsends with ⟨hp, h1⟩ | ⟨c', s2, hp, h1, he⟩
    · exact .inl ⟨hp, trans ht h1⟩
    · exact .inr ⟨c', s2, hp, trans ht h1, he⟩
  | iter body b k =>
    have hsends := advance_sends refl trans now (round body b k) s
    rwa [Option.some.inj hr] at hsends

end

/-! ## The post of a program -/

/-- A host that writes down what is sent and what is answered later. -/
def posted (h : Host C R σ) : Host C R (Traced C R σ) where
  now c t := (h.now c t.state).map fun (r, s) => (r, t.setState s)
  issue c t := ⟨h.issue c t.state, .sent c t.state :: t.log⟩
  reply c r t := (h.reply c r t.state).map fun s => ⟨s, .answered c r s :: t.log⟩

variable {t t' : Traced C R σ} {c : C}

/-- The post takes no part in the run. -/
theorem advance_posted (p : Prog C R α) (t : Traced C R σ) :
    (h.posted.advance p t).1 = (h.advance p t.state).1 ∧
      (h.posted.advance p t).2.state = (h.advance p t.state).2 := by
  induction p generalizing t with
  | pure a => exact ⟨rfl, rfl⟩
  | call c k ih =>
    simp only [advance, posted]
    cases hn : h.now c t.state with
    | none => exact ⟨rfl, rfl⟩
    | some next => exact ih next.1 _
  | iter body b k => exact ⟨rfl, rfl⟩

/-- What a resumed program does can be written down. -/
theorem resume_posted {answer : (c : C) → Option (R c)} {p p' : Prog C R α} {s' : σ}
    (t : Traced C R σ) (hr : h.resume answer p t.state = some (p', s')) :
    ∃ t', t'.state = s' ∧ h.posted.resume answer p t = some (p', t') := by
  have hadvance : ∀ (q : Prog C R α) (t : Traced C R σ), h.advance q t.state = (p', s') →
      ∃ t', t'.state = s' ∧ h.posted.advance q t = (p', t') := by
    intro q t hq
    obtain ⟨hp, hs⟩ := advance_posted (h := h) q t
    rw [hq] at hp hs
    exact ⟨(h.posted.advance q t).2, hs, Prod.ext hp rfl⟩
  cases p with
  | pure a => cases hr
  | iter body b k =>
    obtain ⟨t', hs, he⟩ := hadvance (round body b k) t (Option.some.inj hr)
    exact ⟨t', hs, congrArg some he⟩
  | call c k =>
    obtain ⟨r, ha, s1, hs1, he⟩ := resume_call hr
    obtain ⟨t', hs, he'⟩ := hadvance (k r) ⟨s1, .answered c r s1 :: t.log⟩ he
    refine ⟨t', hs, ?_⟩
    have hreply : h.posted.reply c r t = some ⟨s1, .answered c r s1 :: t.log⟩ := by
      simp [posted, hs1]
    simp [resume, ha, hreply, he']

/-- The command that a program waits for is the latest in its post. -/
theorem Sends.sent {T : Traced C R σ → Traced C R σ → Prop} {p : Prog C R α}
    (hs : h.posted.Sends T t p t') (hp : p.pending = some c) :
    ∃ s log, t'.log = .sent c s :: log := by
  rcases hs with ⟨hn, -⟩ | ⟨c', t1, hp', -, rfl⟩
  · rw [hp] at hn; cases hn
  · cases hp.symm.trans hp'
    exact ⟨_, _, rfl⟩

section
variable {K : Contract (Traced C R σ)} {Q : R c → Traced C R σ → Prop}

theorem wp_posted_now {r : R c} {s : σ} (hn : h.now c t.state = some (r, s))
    (hq : Q r (t.setState s)) : h.posted.wp K (.command c) Q t :=
  wp_now (by simp [posted, hn]) hq

theorem wp_posted_wait (hn : h.now c t.state = none)
    (hi : K.inv ⟨h.issue c t.state, .sent c t.state :: t.log⟩)
    (hq : ∀ t', K.rely ⟨h.issue c t.state, .sent c t.state :: t.log⟩ t' → K.inv t' →
      ∀ r s, h.reply c r t'.state = some s → Q r ⟨s, .answered c r s :: t'.log⟩) :
    h.posted.wp K (.command c) Q t := by
  refine wp_wait (by simp [posted, hn]) hi fun t' h1 h2 r t'' h3 => ?_
  obtain ⟨s, hs, rfl⟩ := Option.map_eq_some_iff.mp h3
  exact hq t' h1 h2 r s hs

end

end Host

end NewsApi.Async
