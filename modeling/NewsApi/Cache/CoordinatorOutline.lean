import NewsApi.Async.Host
import NewsApi.Cache.Coordinator

/-! # The proof outline of a coordination

What holds at each point of `coordinateCacheMiss`, as assertions on the state
of the host it runs on. A host that supplies the assertions and a triple for
every command gets the triple of the whole coordination. -/
namespace NewsApi.Cache
open NewsApi.Async NewsApi.Text NewsApi.Errors NewsApi.Config

universe u

variable {C : Type} {R : C → Type} {σ : Type u} {T : Type}

/-- `{P} x {Q}` for a program that may throw. -/
def Triple (h : Host C R σ) (K : Contract σ) (P : σ → Prop) {α : Type} (x : AsyncM JsError C R α)
    (Q : Except JsError α → σ → Prop) : Prop :=
  ∀ s, P s → h.wp K x.run Q s

/-- The abort signal as a host sees it. -/
structure AbortFlag (h : Host C R σ) (K : Contract σ) (rt : CoordinatorRuntime C R) where
  aborted : σ → Bool
  wp_aborted : ∀ s (Q : Bool → σ → Prop), Q (aborted s) s → h.wp K rt.aborted Q s

section
variable {h : Host C R σ} {K : Contract σ} {rt : CoordinatorRuntime C R} (F : AbortFlag h K rt)
include F

theorem wp_throwIfAborted {Q : Except JsError Unit → σ → Prop} {s : σ}
    (hq : Q (if F.aborted s then .error .requestAborted else .ok ()) s) :
    h.wp K (throwIfAborted rt).run Q s := by
  rw [throwIfAborted, Host.wp_run_bind, Host.wp_run_lift]
  refine F.wp_aborted s _ ?_
  rw [Host.afterOk_ok]
  cases hab : F.aborted s <;> simpa [hab] using hq

/-- The abort is looked at once the action has settled, either way. -/
theorem wp_attemptUnlessAborted {α : Type} {action : AsyncM JsError C R α}
    {Q : Except JsError (Option α) → σ → Prop} {s : σ}
    (hw : h.wp K action.run (fun r s => Q
      (if F.aborted s then .error .requestAborted else .ok r.toOption) s) s) :
    h.wp K (attemptUnlessAborted rt action).run Q s := by
  rw [attemptUnlessAborted, Host.wp_run_tryCatch, Host.wp_run_bind]
  refine Host.wp_mono hw fun r s1 h1 => ?_
  have hcheck : ∀ {Q' : Except JsError (Option α) → σ → Prop} {x : Option α},
      Q' (if F.aborted s1 then .error .requestAborted else .ok x) s1 →
      h.wp K (do throwIfAborted rt; pure x : AsyncM JsError C R (Option α)).run Q' s1 := by
    intro Q' x hq
    rw [Host.wp_run_bind]
    refine wp_throwIfAborted F ?_
    cases hab : F.aborted s1 <;> simpa [hab] using hq
  cases r with
  | ok value =>
    rw [Host.afterOk_ok]
    refine hcheck ?_
    cases hab : F.aborted s1
    · simpa [hab, Except.toOption] using h1
    · refine hcheck ?_
      simpa [hab] using h1
  | error e =>
    rw [Host.afterOk_error, Host.afterError_error]
    refine hcheck ?_
    simpa [Except.toOption] using h1

end

/-- What is ensured unless the signal is aborted by then. -/
def unlessAborted (aborted : σ → Bool) (ifAborted : σ → Prop) {α : Type}
    (post : Except JsError α → σ → Prop) (r : Except JsError α) (s : σ) : Prop :=
  if aborted s then ifAborted s else post r s

theorem unlessAborted_intro {aborted : σ → Bool} {ifAborted : σ → Prop} {α : Type}
    {post : Except JsError α → σ → Prop} {r : Except JsError α} {s : σ}
    (ha : aborted s = true → ifAborted s) (hp : post r s) :
    unlessAborted aborted ifAborted post r s := by
  unfold unlessAborted
  split
  · rename_i hab
    exact ha hab
  · exact hp

structure Outline {h : Host C R σ} {K : Contract σ} {rt : CoordinatorRuntime C R}
    (F : AbortFlag h K rt) (settings : Settings) (store : CacheLeaseStore C R)
    (key owner : JsString) (waitDeadline : Nat) (readFresh : AsyncM JsError C R (Option T))
    (load : AsyncM JsError C R T)
    (Q : Except JsError (CacheMissCoordinationResult T) → σ → Prop) where
  /-- at the head of the loop -/
  idle : σ → Prop
  /-- before an acquire command -/
  asking : σ → Prop
  /-- a lease command or a poll failed, or the wait is over: load without a lease -/
  loose : σ → Prop
  /-- the lease was granted -/
  held : σ → Prop
  /-- the cache was read again and had nothing -/
  ready : σ → Prop
  beating : σ → Prop
  /-- the load has settled, the heartbeat is still on -/
  loaded : Except JsError T → σ → Prop
  /-- the outcome is known, the lease not yet released -/
  closing : Except JsError (CacheMissCoordinationResult T) → σ → Prop
  /-- the lease was refused -/
  refused : σ → Prop
  waiting : σ → Prop
  idle_inv : ∀ s, idle s → K.inv s ∧ K.atLoop s
  idle_stable : ∀ s s', idle s → K.rely s s' → K.inv s' → idle s'
  enter : ∀ s, idle s → if F.aborted s then Q (.error .requestAborted) s else asking s
  acquire : Triple h K asking (store.tryAcquireLease key owner settings.cacheLeaseTtlMs)
    (unlessAborted F.aborted (Q (.error .requestAborted)) fun
      | .error _ => loose
      | .ok true => held
      | .ok false => refused)
  loadLoose : Triple h K loose load fun
    | .ok value => Q (.ok ⟨value, .upstream⟩)
    | .error e => Q (.error e)
  recheck : Triple h K held readFresh
    (unlessAborted F.aborted (closing (.error .requestAborted)) fun
      | .ok (some cached) => closing (.ok ⟨cached, .sharedCache⟩)
      | _ => ready)
  beat : ∀ s, ready s → h.wp K (rt.startLeaseHeartbeat key owner settings.cacheLeaseTtlMs)
    (fun _ => beating) s
  loadHeld : Triple h K beating load loaded
  stop : ∀ r s, loaded r s → h.wp K rt.stopLeaseHeartbeat
    (fun _ => closing (r.map fun value => ⟨value, .upstream⟩)) s
  release : ∀ r, Triple h K (closing r) (store.releaseLease key owner) fun _ => Q r
  poll : Triple h K refused readFresh
    (unlessAborted F.aborted (Q (.error .requestAborted)) fun
      | .error _ => loose
      | .ok (some cached) => Q (.ok ⟨cached, .sharedCache⟩)
      | .ok none => waiting)
  clock : ∀ s, waiting s → h.wp K rt.dateNow
    (fun now s => if waitDeadline ≤ now then loose s else waiting s) s
  jitter : ∀ s, waiting s → h.wp K rt.random (fun _ => waiting) s
  doze : ∀ delayMs s, waiting s → if F.aborted s then Q (.error .requestAborted) s else
    h.wp K (rt.setTimeout delayMs).run (fun
      | .ok _ => idle
      | .error e => Q (.error e)) s

namespace Outline
variable {h : Host C R σ} {K : Contract σ} {rt : CoordinatorRuntime C R} {F : AbortFlag h K rt}
  {settings : Settings} {store : CacheLeaseStore C R} {key owner : JsString} {waitDeadline : Nat}
  {readFresh : AsyncM JsError C R (Option T)} {load : AsyncM JsError C R T}
  {Q : Except JsError (CacheMissCoordinationResult T) → σ → Prop}
  (O : Outline F settings store key owner waitDeadline readFresh load Q)
include O

theorem wp_acquireLease : Triple h K O.asking
    (acquireLease rt store key owner settings.cacheLeaseTtlMs) fun
      | .error e => Q (.error e)
      | .ok none => O.loose
      | .ok (some true) => O.held
      | .ok (some false) => O.refused := by
  intro s hs
  refine wp_attemptUnlessAborted F (Host.wp_mono (O.acquire s hs) fun r s1 h1 => ?_)
  unfold unlessAborted at h1
  split at h1
  · rename_i hab
    rw [if_pos hab]
    exact h1
  · rename_i hab
    rw [if_neg hab]
    rcases r with e | _ | _ <;> exact h1

theorem wp_recheckFresh : Triple h K O.held (recheckFresh rt readFresh) fun
    | .error e => O.closing (.error e)
    | .ok (some cached) => O.closing (.ok ⟨cached, .sharedCache⟩)
    | .ok none => O.ready := by
  intro s hs
  rw [recheckFresh, Host.wp_run_map]
  refine wp_attemptUnlessAborted F (Host.wp_mono (O.recheck s hs) fun r s1 h1 => ?_)
  unfold unlessAborted at h1
  split at h1
  · rename_i hab
    rw [if_pos hab]
    exact h1
  · rename_i hab
    rw [if_neg hab]
    rcases r with e | _ | _ <;> exact h1

theorem wp_pollFresh : Triple h K O.refused (pollFresh rt readFresh) fun
    | .error e => Q (.error e)
    | .ok none => O.loose
    | .ok (some (some cached)) => Q (.ok ⟨cached, .sharedCache⟩)
    | .ok (some none) => O.waiting := by
  intro s hs
  refine wp_attemptUnlessAborted F (Host.wp_mono (O.poll s hs) fun r s1 h1 => ?_)
  unfold unlessAborted at h1
  split at h1
  · rename_i hab
    rw [if_pos hab]
    exact h1
  · rename_i hab
    rw [if_neg hab]
    rcases r with e | _ | _ <;> exact h1

theorem wp_sleep (delayMs : Nat) : Triple h K O.waiting (sleep rt delayMs) fun
    | .ok _ => O.idle
    | .error e => Q (.error e) := by
  intro s hs
  have hdoze := O.doze delayMs s hs
  rw [sleep, Host.wp_run_bind]
  refine wp_throwIfAborted F ?_
  split at hdoze
  · rename_i hab
    rw [if_pos hab]
    exact hdoze
  · rename_i hab
    rw [if_neg hab]
    exact hdoze

theorem wp_loadUnderLease : Triple h K O.held
    (loadUnderLease rt store key owner settings.cacheLeaseTtlMs readFresh load) Q := by
  intro s hs
  rw [loadUnderLease, Host.wp_run_withFinally]
  -- whatever the block did, the lease is released after it
  suffices hblock : h.wp K _ O.closing s by
    refine Host.wp_mono hblock fun r s1 h1 => ?_
    rw [releaseLease, Host.wp_run_tryCatch]
    refine Host.wp_mono (O.release r s1 h1) ?_
    rintro (e | _) s2 h2
    · exact h2
    · exact h2
  rw [Host.wp_run_bind]
  refine Host.wp_mono (O.wp_recheckFresh s hs) ?_
  rintro (e | _ | cached) s1 h1
  · exact h1
  · rw [Host.afterOk_ok]
    simp only [Host.wp_run_bind, Host.wp_run_lift]
    refine Host.wp_mono (O.beat s1 h1) fun _ s2 h2 => ?_
    rw [Host.afterOk_ok, Host.wp_run_withFinally, Host.wp_run_bind]
    refine Host.wp_mono (O.loadHeld s2 h2) fun r s3 h3 => ?_
    cases r with
    | error e =>
      rw [Host.afterOk_error, Host.wp_run_lift]
      exact O.stop (.error e) s3 h3
    | ok value =>
      rw [Host.afterOk_ok, Host.wp_run_pure, Host.wp_run_lift]
      exact O.stop (.ok value) s3 h3
  · exact h1

theorem wp_loose : Triple h K O.loose
    (Sum.inr <$> loadWithoutCoordination load .upstream :
      AsyncM JsError C R (Unit ⊕ CacheMissCoordinationResult T))
    (Host.roundOutcome (fun _ => O.idle) Q) := by
  intro s hs
  rw [Host.wp_run_map, loadWithoutCoordination, Host.wp_run_bind]
  refine Host.wp_mono (O.loadLoose s hs) ?_
  rintro (e | value) s1 h1
  · exact h1
  · exact h1

theorem wp_round : Triple h K O.idle
    (coordinationRound rt settings store key owner waitDeadline readFresh load)
    (Host.roundOutcome (fun _ => O.idle) Q) := by
  intro s hs
  rw [coordinationRound, Host.wp_run_bind]
  refine wp_throwIfAborted F ?_
  have henter := O.enter s hs
  split at henter
  · rename_i hab
    rw [if_pos hab]
    exact henter
  rename_i hab
  rw [if_neg hab, Host.afterOk_ok, Host.wp_run_bind]
  refine Host.wp_mono (O.wp_acquireLease s henter) ?_
  rintro (e | _ | _ | _) s2 h2
  · exact h2
  · exact O.wp_loose s2 h2
  · -- refused: poll, then wait or give up waiting
    rw [Host.afterOk_ok]
    simp only [Host.wp_run_bind]
    refine Host.wp_mono (O.wp_pollFresh s2 h2) ?_
    rintro (e | _ | _ | cached) s3 h3
    · exact h3
    · exact O.wp_loose s3 h3
    · rw [Host.afterOk_ok]
      simp only [Host.wp_run_bind, Host.wp_run_lift]
      refine Host.wp_mono (O.clock s3 h3) fun now s4 h4 => ?_
      rw [Host.afterOk_ok]
      split
      · rename_i hlate
        rw [if_pos hlate] at h4
        exact O.wp_loose s4 h4
      · rename_i hearly
        rw [if_neg hearly] at h4
        simp only [Host.wp_run_bind, Host.wp_run_lift]
        refine Host.wp_mono (O.jitter s4 h4) fun random s5 h5 => ?_
        rw [Host.afterOk_ok, Host.wp_run_bind]
        refine Host.wp_mono (O.wp_sleep _ s5 h5) ?_
        rintro (e | _) s6 h6
        · exact h6
        · exact h6
    · exact h3
  · rw [Host.afterOk_ok]
    simp only [Host.wp_run_map]
    refine Host.wp_mono (O.wp_loadUnderLease s2 h2) ?_
    rintro (e | result) s3 h3
    · exact h3
    · exact h3

/-- From the head of its loop the coordination ends as the outline says. -/
theorem wp_loop : Triple h K O.idle
    (AsyncM.loop () fun _ =>
      coordinationRound rt settings store key owner waitDeadline readFresh load) Q := by
  intro s hs
  refine Host.wp_run_loop (fun _ => O.idle) hs (fun _ => O.idle_inv)
    (fun _ => O.idle_stable) fun _ s1 h1 => ?_
  exact O.wp_round s1 h1

end Outline

section
variable {h : Host C R σ} {K : Contract σ} {rt : CoordinatorRuntime C R} (F : AbortFlag h K rt)
  {settings : Settings} {platform : Platform} {cacheKey : JsString}
  {readFresh : AsyncM JsError C R (Option T)} {load : AsyncM JsError C R T}
  {Q : Except JsError (CacheMissCoordinationResult T) → σ → Prop} {s : σ}
include F

/-- A coordination over a store with leases, from its call. -/
theorem wp_coordinateCacheMiss {store : CacheLeaseStore C R} (hstore : rt.leaseStore = some store)
    (hw : if F.aborted s then Q (.error .requestAborted) s else
      h.wp K rt.randomUUID (fun owner => h.wp K rt.dateNow fun startedAt s2 =>
        ∃ O : Outline F settings store (leaseKey platform cacheKey) owner
          (startedAt + settings.cacheLeaseWaitMs) readFresh load Q, O.idle s2) s) :
    h.wp K (coordinateCacheMiss rt settings platform cacheKey readFresh load).run Q s := by
  rw [coordinateCacheMiss, Host.wp_run_bind]
  refine wp_throwIfAborted F ?_
  by_cases hab : F.aborted s = true
  · rw [if_pos hab] at hw ⊢
    exact hw
  · rw [if_neg hab] at hw ⊢
    rw [Host.afterOk_ok, hstore]
    simp only [Host.wp_run_bind, Host.wp_run_lift]
    refine Host.wp_mono hw fun owner s1 h1 => ?_
    rw [Host.afterOk_ok, Host.wp_run_bind, Host.wp_run_lift]
    refine Host.wp_mono h1 ?_
    rintro startedAt s2 ⟨O, hidle⟩
    exact O.wp_loop s2 hidle

/-- A store without leases: the load alone. -/
theorem wp_coordinateCacheMiss_bypassed (hstore : rt.leaseStore = none)
    (hw : if F.aborted s then Q (.error .requestAborted) s else
      h.wp K load.run (fun
        | .ok value => Q (.ok ⟨value, .bypassed⟩)
        | .error e => Q (.error e)) s) :
    h.wp K (coordinateCacheMiss rt settings platform cacheKey readFresh load).run Q s := by
  rw [coordinateCacheMiss, Host.wp_run_bind]
  refine wp_throwIfAborted F ?_
  by_cases hab : F.aborted s = true
  · rw [if_pos hab] at hw ⊢
    exact hw
  · rw [if_neg hab] at hw ⊢
    rw [Host.afterOk_ok, hstore]
    simp only [loadWithoutCoordination, Host.wp_run_bind]
    refine Host.wp_mono hw ?_
    rintro (e | value) s1 h1
    · exact h1
    · exact h1

end

end NewsApi.Cache
