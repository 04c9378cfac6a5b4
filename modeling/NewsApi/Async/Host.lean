import NewsApi.Async.Prog

/-! # Hosts and the rules of asynchronous programs

A host answers some commands within the running synchronous step (`now`) and
others later (`reply`). A task therefore runs from one suspension to the next
without interruption, and everything else happens between suspensions.

`Host.wp` is the weakest precondition of a program against a host and a
`Contract`: the invariant holds at every suspension, and whatever happens to
the state meanwhile stays within `rely`. The rules of the exception layer are
stated for `wp` of `.run`, so a proof follows the program text. `resume_sound`
and `parked_rely` are the two facts a system of interleaved tasks needs. -/
namespace NewsApi.Async

universe u

/-- How commands act on a state `σ`. `now` answers within the synchronous step
that gives the command; when it does not, `issue` is the effect of sending it,
and `reply` the effect of the answer, `none` if that answer is impossible. -/
structure Host (C : Type) (R : C → Type) (σ : Type u) where
  now : (c : C) → σ → Option (R c × σ)
  issue : C → σ → σ
  reply : (c : C) → R c → σ → Option σ

/-- What a task may rely on and what it must keep. -/
structure Contract (σ : Type u) where
  /-- holds at every suspension -/
  inv : σ → Prop
  /-- bounds what happens while the task is suspended -/
  rely : σ → σ → Prop
  /-- holds whenever the task stands at the head of a loop -/
  atLoop : σ → Prop
  rely_refl : ∀ s, rely s s
  rely_trans : ∀ {s t u}, rely s t → rely t u → rely s u

variable {C : Type} {R : C → Type} {σ : Type u} {α β γ δ ε : Type}

namespace Host
variable (h : Host C R σ)

/-- Run up to the next suspension or the end. -/
def advance {α : Type} : Prog C R α → σ → Prog C R α × σ
  | .pure a, s => (.pure a, s)
  | .call c k, s =>
    match h.now c s with
    | some (r, s') => advance (k r) s'
    | none => (.call c k, h.issue c s)
  | .iter body b k, s => (.iter body b k, s)

/-- One more round of a loop. -/
def round (body : β → Prog C R (β ⊕ γ)) (b : β) (k : γ → Prog C R α) : Prog C R α :=
  (body b).bind fun
    | .inl b' => .iter body b' k
    | .inr g => k g

/-- Continue a suspended task, the environment answering its command. -/
def resume (answer : (c : C) → Option (R c)) : Prog C R α → σ → Option (Prog C R α × σ)
  | .pure _, _ => none
  | .call c k, s => (answer c).bind fun r => (h.reply c r s).map fun s' => h.advance (k r) s'
  | .iter body b k, s => some (h.advance (round body b k) s)

variable (K : Contract σ)

/-- A loop with invariant `I`: after a round it holds at the loop head again,
whatever happened in between, or the loop is left. -/
def roundPost (I : β → σ → Prop) (left : γ → σ → Prop) : β ⊕ γ → σ → Prop
  | .inl b, s => K.inv s ∧ K.atLoop s ∧ ∀ s', K.rely s s' → K.inv s' → I b s'
  | .inr g, s => left g s

/-- Weakest precondition: from `s` the program ends only in states of `Q`. -/
def wp {α : Type} : Prog C R α → (α → σ → Prop) → σ → Prop
  | .pure a, Q, s => Q a s
  | .call c k, Q, s =>
    match h.now c s with
    | some (r, s') => wp (k r) Q s'
    | none => K.inv (h.issue c s) ∧ ∀ s', K.rely (h.issue c s) s' → K.inv s' →
        ∀ r s'', h.reply c r s' = some s'' → wp (k r) Q s''
  | .iter body b k, Q, s => K.inv s ∧ K.atLoop s ∧ ∃ I : _ → σ → Prop,
      (∀ s', K.rely s s' → K.inv s' → I b s') ∧
      ∀ b s', I b s' → wp (body b) (roundPost K I fun g => wp (k g) Q) s'

variable {h K}

theorem wp_mono {p : Prog C R α} {Q Q' : α → σ → Prop} {s : σ}
    (hw : h.wp K p Q s) (hq : ∀ a s, Q a s → Q' a s) : h.wp K p Q' s := by
  induction p generalizing s with
  | pure a => exact hq _ _ hw
  | call c k ih =>
    simp only [wp] at hw ⊢
    split at hw
    · exact ih _ hw hq
    · exact ⟨hw.1, fun s1 h1 h2 r s2 h3 => ih _ (hw.2 s1 h1 h2 r s2 h3) hq⟩
  | iter body b k ihb ihk =>
    obtain ⟨h0, hl, I, hI, hbody⟩ := hw
    refine ⟨h0, hl, I, hI, fun b s1 hb => ihb _ (hbody b s1 hb) ?_⟩
    intro r s2 hr
    cases r with
    | inl b' => exact hr
    | inr g => exact ihk g hr hq

theorem wp_bind {p : Prog C R α} {f : α → Prog C R δ} {Q : δ → σ → Prop} {s : σ} :
    h.wp K (p.bind f) Q s ↔ h.wp K p (fun a s => h.wp K (f a) Q s) s := by
  induction p generalizing s with
  | pure a => rfl
  | call c k ih =>
    simp only [Prog.bind, wp]
    split <;> simp [ih]
  | iter body b k ihb ihk =>
    have left : (fun g => h.wp K ((k g).bind f) Q) =
        fun g => h.wp K (k g) (fun a s => h.wp K (f a) Q s) :=
      funext fun g => funext fun s => propext (ihk g)
    simp only [Prog.bind, wp, left]

@[simp] theorem wp_pure {a : α} {Q : α → σ → Prop} {s : σ} :
    h.wp K (pure a) Q s ↔ Q a s := Iff.rfl

/-- A command answered within the step. -/
theorem wp_now {c : C} {r : R c} {Q : R c → σ → Prop} {s s' : σ}
    (hn : h.now c s = some (r, s')) (hq : Q r s') : h.wp K (.command c) Q s := by
  simpa only [Prog.command, wp, hn] using hq

/-- A command that suspends the task. -/
theorem wp_wait {c : C} {Q : R c → σ → Prop} {s : σ} (hn : h.now c s = none)
    (hi : K.inv (h.issue c s))
    (hq : ∀ s', K.rely (h.issue c s) s' → K.inv s' →
      ∀ r s'', h.reply c r s' = some s'' → Q r s'') : h.wp K (.command c) Q s := by
  simpa only [Prog.command, wp, hn] using And.intro hi hq

/-! ## The exception layer -/

section
variable {Q : Except ε α → σ → Prop} {Q' : Except ε δ → σ → Prop} {s : σ}

@[simp] theorem wp_run_pure {a : α} :
    h.wp K (pure a : AsyncM ε C R α).run Q s ↔ Q (.ok a) s := Iff.rfl

@[simp] theorem wp_run_ofExcept {r : Except ε α} :
    h.wp K (AsyncM.ofExcept r : AsyncM ε C R α).run Q s ↔ Q r s := Iff.rfl

/-- What the rest of a block makes of the outcome of its first action. -/
def afterOk (f : α → AsyncM ε C R δ) (h : Host C R σ) (K : Contract σ)
    (Q : Except ε δ → σ → Prop) : Except ε α → σ → Prop
  | .ok a, s => h.wp K (f a).run Q s
  | .error e, s => Q (.error e) s

@[simp] theorem afterOk_ok {f : α → AsyncM ε C R δ} {a : α} :
    afterOk f h K Q' (.ok a) s = h.wp K (f a).run Q' s := rfl

@[simp] theorem afterOk_error {f : α → AsyncM ε C R δ} {e : ε} :
    afterOk f h K Q' (.error e) s = Q' (.error e) s := rfl

@[simp] theorem wp_run_bind {x : AsyncM ε C R α} {f : α → AsyncM ε C R δ} :
    h.wp K (x >>= f).run Q' s ↔ h.wp K x.run (afterOk f h K Q') s := by
  show h.wp K (Prog.bind _ _) _ _ ↔ _
  rw [wp_bind]
  constructor <;> intro hw <;> refine wp_mono hw ?_ <;> rintro (e | a) s' hr <;> exact hr

@[simp] theorem wp_run_lift {p : Prog C R α} :
    h.wp K (liftM p : AsyncM ε C R α).run Q s ↔ h.wp K p (fun a s => Q (.ok a) s) s := by
  show h.wp K (Prog.bind _ _) _ _ ↔ _
  rw [wp_bind]; rfl

@[simp] theorem wp_run_map {x : AsyncM ε C R α} {f : α → δ} :
    h.wp K (f <$> x).run Q' s ↔ h.wp K x.run (fun r s => Q' (r.map f) s) s := by
  show h.wp K (Prog.bind _ _) _ _ ↔ _
  rw [wp_bind]
  constructor <;> intro hw <;> refine wp_mono hw ?_ <;> rintro (e | a) s' hr <;> exact hr

@[simp] theorem wp_run_attempt {x : AsyncM ε C R α} {Q : Except ε (Except ε α) → σ → Prop} :
    h.wp K (AsyncM.attempt x).run Q s ↔ h.wp K x.run (fun r s => Q (.ok r) s) s := wp_bind

/-- What a handler makes of the outcome of its block. -/
def afterError (f : ε → AsyncM ε C R α) (h : Host C R σ) (K : Contract σ)
    (Q : Except ε α → σ → Prop) : Except ε α → σ → Prop
  | .ok a, s => Q (.ok a) s
  | .error e, s => h.wp K (f e).run Q s

@[simp] theorem afterError_ok {f : ε → AsyncM ε C R α} {a : α} :
    afterError f h K Q (.ok a) s = Q (.ok a) s := rfl

@[simp] theorem afterError_error {f : ε → AsyncM ε C R α} {e : ε} :
    afterError f h K Q (.error e) s = h.wp K (f e).run Q s := rfl

@[simp] theorem wp_run_tryCatch {x : AsyncM ε C R α} {f : ε → AsyncM ε C R α} :
    h.wp K (tryCatch x f).run Q s ↔ h.wp K x.run (afterError f h K Q) s := by
  show h.wp K (Prog.bind _ _) _ _ ↔ _
  rw [wp_bind]
  constructor <;> intro hw <;> refine wp_mono hw ?_ <;> rintro (e | a) s' hr <;> exact hr

/-- The outcome of `try … finally` from the outcomes of its two blocks. -/
def finallyOf (r : Except ε α) : Except ε Unit → Except ε α
  | .ok _ => r
  | .error e => .error e

@[simp] theorem wp_run_withFinally {x : AsyncM ε C R α} {fin : AsyncM ε C R Unit} :
    h.wp K (AsyncM.withFinally x fin).run Q s ↔
      h.wp K x.run (fun r s => h.wp K fin.run (fun f s => Q (finallyOf r f) s) s) s := by
  show h.wp K (Prog.bind _ _) _ _ ↔ _
  rw [wp_bind]
  constructor <;> intro hw <;> refine wp_mono hw ?_ <;> intro r s1 hr
  all_goals
    simp only [wp_bind] at hr ⊢
    refine wp_mono hr ?_
    rintro (e | ⟨⟩) s2 hf <;> exact hf

/-- What one round of a loop with invariant `I` ensures. -/
def roundOutcome (I : β → σ → Prop) (Q : Except ε γ → σ → Prop) : Except ε (β ⊕ γ) → σ → Prop
  | .ok (.inl b), s => I b s
  | .ok (.inr g), s => Q (.ok g) s
  | .error e, s => Q (.error e) s

/-- The rule of a loop with invariant `I`. -/
theorem wp_run_loop {b : β} {body : β → AsyncM ε C R (β ⊕ γ)} {Q : Except ε γ → σ → Prop}
    (I : β → σ → Prop) (hs : I b s) (hI : ∀ b s, I b s → K.inv s ∧ K.atLoop s)
    (stable : ∀ b s s', I b s → K.rely s s' → K.inv s' → I b s')
    (hb : ∀ b s, I b s → h.wp K (body b).run (roundOutcome I Q) s) :
    h.wp K (AsyncM.loop b body).run Q s := by
  obtain ⟨hi, hl⟩ := hI b s hs
  refine ⟨hi, hl, I, fun s' hr hk => stable b s s' hs hr hk, fun b s1 h1 => ?_⟩
  rw [wp_bind]
  refine wp_mono (hb b s1 h1) ?_
  rintro (e | b' | g) s2 hr
  · exact hr
  · exact ⟨(hI b' s2 hr).1, (hI b' s2 hr).2, fun s3 h3 h4 => stable b' s2 s3 hr h3 h4⟩
  · exact hr

end

/-! ## Programs restricted to some commands -/

section
variable {A : C → Prop} {P : σ → Prop}

/-- An assertion that no command of the program can end holds throughout. -/
theorem wp_only {p : Prog C R α} (hp : p.Only A) (hP : ∀ s, P s → K.inv s ∧ K.atLoop s)
    (stable : ∀ s s', P s → K.rely s s' → K.inv s' → P s')
    (now : ∀ c s r s', A c → P s → h.now c s = some (r, s') → P s')
    (issue : ∀ c s, A c → P s → h.now c s = none → P (h.issue c s))
    (reply : ∀ c r s s', A c → P s → h.reply c r s = some s' → P s')
    {s : σ} (hs : P s) : h.wp K p (fun _ => P) s := by
  induction p generalizing s with
  | pure a => exact hs
  | call c k ih =>
    obtain ⟨hc, hk⟩ := hp
    simp only [wp]
    split
    · rename_i r s1 hn
      exact ih r (hk r) (now c s r s1 hc hs hn)
    · rename_i hn
      have hi := issue c s hc hs hn
      refine ⟨(hP _ hi).1, fun s1 h1 h2 r s2 h3 => ?_⟩
      exact ih r (hk r) (reply c r s1 s2 hc (stable _ _ hi h1 h2) h3)
  | iter body b k ihb ihk =>
    obtain ⟨hb, hk⟩ := hp
    refine ⟨(hP s hs).1, (hP s hs).2, fun _ => P, fun s1 => stable s s1 hs, fun b s1 h1 => ?_⟩
    refine wp_mono (ihb b (hb b) h1) ?_
    rintro (b' | g) s2 h2
    · exact ⟨(hP s2 h2).1, (hP s2 h2).2, fun s3 => stable s2 s3 h2⟩
    · exact ihk g (hk g) h2

end

/-! ## Suspended tasks -/

/-- What is known of a task that stands at a suspension or has ended. -/
def parked (h : Host C R σ) (K : Contract σ) (F : α → σ → Prop) : Prog C R α → σ → Prop
  | .pure a, s => F a s
  | .call c k, s => ∀ s', K.rely s s' → K.inv s' → ∀ r s'', h.reply c r s' = some s'' →
      h.wp K (k r) (fun a s => K.inv s ∧ F a s) s''
  | .iter body b k, s => K.atLoop s ∧ ∃ I : _ → σ → Prop,
      (∀ s', K.rely s s' → K.inv s' → I b s') ∧
      ∀ b s', I b s' → h.wp K (body b)
        (roundPost K I fun g => h.wp K (k g) fun a s => K.inv s ∧ F a s) s'

theorem advance_sound {F : α → σ → Prop} {p : Prog C R α} {s : σ}
    (hw : h.wp K p (fun a s => K.inv s ∧ F a s) s) :
    K.inv (h.advance p s).2 ∧ h.parked K F (h.advance p s).1 (h.advance p s).2 := by
  induction p generalizing s with
  | pure a => exact hw
  | call c k ih =>
    simp only [wp, advance] at hw ⊢
    split at hw
    · exact ih _ hw
    · exact ⟨hw.1, fun s' h1 h2 r s'' h3 => hw.2 s' h1 h2 r s'' h3⟩
  | iter body b k => exact ⟨hw.1, hw.2.1, hw.2.2⟩

theorem wp_round {F : α → σ → Prop} {body : β → Prog C R (β ⊕ γ)} {b : β} {k : γ → Prog C R α}
    {s : σ} (hi : K.inv s) (hp : h.parked K F (.iter body b k) s) :
    h.wp K (round body b k) (fun a s => K.inv s ∧ F a s) s := by
  obtain ⟨_, I, h0, hb⟩ := hp
  rw [round, wp_bind]
  refine wp_mono (hb b s (h0 s (K.rely_refl s) hi)) ?_
  rintro (b' | g) s2 hr
  · exact ⟨hr.1, hr.2.1, I, hr.2.2, hb⟩
  · exact hr

theorem resume_call {answer : (c : C) → Option (R c)} {c : C} {k : R c → Prog C R α}
    {p' : Prog C R α} {s s' : σ} (hr : h.resume answer (.call c k) s = some (p', s')) :
    ∃ r, answer c = some r ∧ ∃ s1, h.reply c r s = some s1 ∧ h.advance (k r) s1 = (p', s') := by
  simpa [resume, Option.bind_eq_some_iff] using hr

/-- A resumed task keeps the invariant and what is known of it. -/
theorem resume_sound {F : α → σ → Prop} {answer : (c : C) → Option (R c)}
    {p p' : Prog C R α} {s s' : σ} (hi : K.inv s) (hp : h.parked K F p s)
    (hr : h.resume answer p s = some (p', s')) : K.inv s' ∧ h.parked K F p' s' := by
  cases p with
  | pure a => cases hr
  | call c k =>
    obtain ⟨r, -, s1, hs1, he⟩ := resume_call hr
    have := advance_sound (hp s (K.rely_refl s) hi r s1 hs1)
    rwa [he] at this
  | iter body b k =>
    have := advance_sound (wp_round hi hp)
    rwa [Option.some.inj hr] at this

/-- What is known of a suspended task survives what others do. -/
theorem parked_rely {F : α → σ → Prop} {p : Prog C R α} {s s' : σ} (hp : h.parked K F p s)
    (hr : K.rely s s') (hF : ∀ a, F a s → F a s') (hl : K.atLoop s → K.atLoop s') :
    h.parked K F p s' := by
  cases p with
  | pure a => exact hF a hp
  | call c k => exact fun s1 h1 => hp s1 (K.rely_trans hr h1)
  | iter body b k =>
    obtain ⟨h0, I, hI, hb⟩ := hp
    exact ⟨hl h0, I, fun s1 h1 => hI s1 (K.rely_trans hr h1), hb⟩

/-! ## Frames and termination -/

section
variable {T : σ → σ → Prop} (refl : ∀ s, T s s) (trans : ∀ {s t u}, T s t → T t u → T s u)
  (now : ∀ c s r s', h.now c s = some (r, s') → T s s') (issue : ∀ c s, T s (h.issue c s))

include refl trans now issue

/-- A relation that every command respects holds across a synchronous step. -/
theorem advance_frame (p : Prog C R α) (s : σ) : T s (h.advance p s).2 := by
  induction p generalizing s with
  | pure a => exact refl s
  | call c k ih =>
    simp only [advance]
    split
    · rename_i r s1 hn
      exact trans (now c s r s1 hn) (ih r s1)
    · exact issue c s
  | iter body b k => exact refl s

theorem resume_frame {answer : (c : C) → Option (R c)}
    (reply : ∀ c r s s', answer c = some r → h.reply c r s = some s' → T s s')
    {p p' : Prog C R α} {s s' : σ} (hr : h.resume answer p s = some (p', s')) : T s s' := by
  cases p with
  | pure a => cases hr
  | call c k =>
    obtain ⟨r, ha, s1, hs1, he⟩ := resume_call hr
    have := advance_frame refl trans now issue (k r) s1
    rw [he] at this
    exact trans (reply c r s s1 ha hs1) this
  | iter body b k =>
    have := advance_frame refl trans now issue (round body b k) s
    rwa [Option.some.inj hr] at this

end

/-! ## Tasks that end -/

/-- One answer takes a task from the suspension `p` to `p'`. -/
def Resumes (h : Host C R σ) (p' p : Prog C R α) : Prop :=
  ∃ answer c k s s', p = .call c k ∧ h.resume answer p s = some (p', s')

theorem acc_advance (p : Prog C R α) (s : σ) : Acc h.Resumes (h.advance p s).1 := by
  induction p generalizing s with
  | pure a => exact .intro _ fun p' ⟨_, _, _, _, _, heq, _⟩ => nomatch heq
  | call c k ih =>
    unfold advance
    split
    · exact ih _ _
    · refine .intro _ fun p' ⟨answer, _, _, s1, s', heq, hr⟩ => ?_
      cases heq
      obtain ⟨r, -, s2, -, he⟩ := resume_call hr
      have := ih r s2
      rwa [he] at this
  | iter body b k => exact .intro _ fun p' ⟨_, _, _, _, _, heq, _⟩ => nomatch heq

/-- A task that comes to no loop ends after finitely many answers. -/
theorem acc_resumes (p : Prog C R α) : Acc h.Resumes p := by
  refine .intro p fun p' ⟨answer, c, k, s, s', heq, hr⟩ => ?_
  subst heq
  obtain ⟨r, -, s1, -, he⟩ := resume_call hr
  have := acc_advance (h := h) (k r) s1
  rwa [he] at this

end Host

end NewsApi.Async
