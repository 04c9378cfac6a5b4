import NewsApi.Async.Run
import NewsApi.Cache.CoordinatorCommands
import NewsApi.Cache.CoordinatorOutline
import NewsApi.Cache.Lease

/-! # A cold miss across replicas

Any number of participants coordinate the load of one key over a shared store:
the lease lives in the keyspace of `Cache.Lease`, the fresh entry beside it. A
store command takes effect between being sent and being answered, and commands
do not fail. A load writes the entry before it resolves, and the entry stays.

Each participant carries a protocol phase that follows the commands it sends
and the answers it gets. The phases and the store are the abstract model, and
the coordination program keeps to it. -/
namespace NewsApi.Cache.ColdMiss
open NewsApi.Async NewsApi.Text NewsApi.Errors NewsApi.Config

/-- What the store did with a command. -/
inductive Executed (T : Type) where
  | acquired (granted : Bool)
  | read (fresh : Option T)
  | released
  deriving DecidableEq

inductive Phase (T : Type) where
  /-- without a lease, nothing under way -/
  | idle
  | asking
  | polling
  /-- the lease was granted -/
  | held
  | rechecking
  /-- the cache was read under the lease and had the entry, or had nothing -/
  | found
  | missed
  /-- loading under the lease; what the load has written so far -/
  | loading (written : Option T)
  | loaded
  | releasing
  | done
  /-- loading without a lease -/
  | loose
  deriving DecidableEq

/-- A command is sent. -/
def Phase.sent {T : Type} : CoordinatorCommand → Phase T → Phase T
  | .tryAcquireLease _ _ _, _ => .asking
  | .readFresh, .held => .rechecking
  | .readFresh, _ => .polling
  | .load, .missed => .loading none
  | .load, _ => .loose
  | .releaseLease _ _, _ => .releasing
  | _, phase => phase

/-- A read is answered. -/
def Phase.answered {T : Type} (fresh : Option T) : Phase T → Phase T
  | .rechecking => if fresh.isSome then .found else .missed
  | _ => .idle

/-- A load settles. -/
def Phase.settled {T : Type} : Phase T → Phase T
  | .loading _ => .loaded
  | _ => .idle

structure Store (T : Type) where
  db : Lease.Db
  fresh : Option T

structure Local (T : Type) where
  /-- `randomUUID()` -/
  owner : JsString
  aborted : Bool
  clock : Nat
  randoms : Nat → Rat
  drawn : Nat
  /-- when the coordination read the clock first -/
  startedAt : Option Nat
  /-- it found its wait deadline passed -/
  late : Bool
  phase : Phase T
  pending : Option CoordinatorCommand
  executed : Option (Executed T)
  /-- what its load wrote, and what it resolved with -/
  wrote : Option T
  resolved : Option T
  failed : Bool
  /-- its lease expired, in this phase -/
  lost : Option (Phase T)

structure View (T : Type) where
  store : Store T
  lo : Local T

variable {T : Type} (settings : Settings)

/-! ## The host -/

def now : (c : CoordinatorCommand) → View T → Option (CoordinatorReply T c × View T)
  | .aborted, v => some (v.lo.aborted, v)
  | .dateNow, v =>
    match v.lo.startedAt with
    | none => some (v.lo.clock, { v with lo.startedAt := some v.lo.clock })
    | some t => some (v.lo.clock, { v with
        lo.late := v.lo.late || t + settings.cacheLeaseWaitMs ≤ v.lo.clock })
  | .random, v => some (v.lo.randoms v.lo.drawn, { v with lo.drawn := v.lo.drawn + 1 })
  | .randomUUID, v => some (v.lo.owner, v)
  | .startHeartbeat _ _ _, v => some ((), v)
  | .stopHeartbeat, v => some ((), v)
  | .setTimeout _, _ | .tryAcquireLease _ _ _, _ | .releaseLease _ _, _ | .readFresh, _
  | .load, _ => none

def issue (c : CoordinatorCommand) (v : View T) : View T :=
  { v with lo := { v.lo with
      pending := some c
      executed := none
      phase := v.lo.phase.sent c } }

/-- An answered command leaves the participant in a new phase. -/
def View.answer (v : View T) (phase : Phase T) : View T :=
  { v with lo := { v.lo with
      pending := none
      executed := none
      phase := phase } }

/-- Store commands are answered with what was executed, and do not fail. A load
that resolves does so with what it has written. -/
def reply [DecidableEq T] :
    (c : CoordinatorCommand) → CoordinatorReply T c → View T → Option (View T)
  | .tryAcquireLease _ _ _, .ok granted, v =>
    if v.lo.executed = some (.acquired granted) then
      some (v.answer (if granted then .held else .idle))
    else none
  | .readFresh, .ok fresh, v =>
    if v.lo.executed = some (.read fresh) then some (v.answer (v.lo.phase.answered fresh)) else none
  | .releaseLease _ _, .ok _, v =>
    if v.lo.executed = some .released then some (v.answer .done) else none
  | .load, .ok value, v =>
    if v.lo.phase = .loading (some value) ∨ v.lo.phase = .loose then
      some { v.answer v.lo.phase.settled with lo.resolved := some value }
    else none
  | .load, .error _, v => some { v.answer v.lo.phase.settled with lo.failed := true }
  | .setTimeout _, .ok _, v => some v
  | .setTimeout _, .error .requestAborted, v => if v.lo.aborted then some v else none
  | _, _, _ => none

def storeHost [DecidableEq T] : Host CoordinatorCommand (CoordinatorReply T) (View T) where
  now := now settings
  issue := issue
  reply := reply

/-! ## The program keeps to its phases -/

/-- What holds of a participant at every suspension. -/
structure Keeps (key : JsString) (v : View T) : Prop where
  /-- a read that has been executed found the entry that is there -/
  read : ∀ x, v.lo.executed = some (.read (some x)) → v.store.fresh = some x
  acquires : ∀ k o ttlMs, v.lo.pending = some (.tryAcquireLease k o ttlMs) →
    k = key ∧ o = v.lo.owner
  releases : ∀ k o, v.lo.pending = some (.releaseLease k o) → k = key ∧ o = v.lo.owner
  releasing : ∀ k o, v.lo.pending = some (.releaseLease k o) → v.lo.phase = .releasing
  loose : v.lo.phase = .loose → v.lo.late = true
  loading : ∀ w, v.lo.phase = .loading w → v.lo.wrote = w
  wrote : v.lo.wrote ≠ none → (∃ w, v.lo.phase = .loading w) ∨ v.lo.phase = .loaded ∨
    v.lo.phase = .releasing ∨ v.lo.phase = .done
  resolved : ∀ x, v.lo.resolved = some x → v.lo.late = true ∨ v.lo.wrote = some x

/-- What may happen to a participant while it is suspended. -/
structure Meanwhile (v v' : View T) : Prop where
  owner : v'.lo.owner = v.lo.owner
  aborted : v.lo.aborted = true → v'.lo.aborted = true
  startedAt : v'.lo.startedAt = v.lo.startedAt
  late : v'.lo.late = v.lo.late
  phase : v'.lo.phase = v.lo.phase ∧ v'.lo.wrote = v.lo.wrote ∨
    v.lo.phase = .loading none ∧ ∃ x, v'.lo.phase = .loading (some x)
  resolved : v'.lo.resolved = v.lo.resolved
  failed : v'.lo.failed = v.lo.failed
  fresh : ∀ x, v.store.fresh = some x → v'.store.fresh = some x

theorem Meanwhile.refl (v : View T) : Meanwhile v v :=
  ⟨rfl, id, rfl, rfl, .inl ⟨rfl, rfl⟩, rfl, rfl, fun _ => id⟩

theorem Meanwhile.trans {v v' v'' : View T} (h : Meanwhile v v') (h' : Meanwhile v' v'') :
    Meanwhile v v'' where
  owner := h'.owner.trans h.owner
  aborted := h'.aborted ∘ h.aborted
  startedAt := h'.startedAt.trans h.startedAt
  late := h'.late.trans h.late
  phase := by
    rcases h.phase with ⟨hp, hw⟩ | ⟨hp, x, hx⟩
    · rcases h'.phase with ⟨hp', hw'⟩ | ⟨hp', x, hx⟩
      · exact .inl ⟨hp'.trans hp, hw'.trans hw⟩
      · exact .inr ⟨hp ▸ hp', x, hx⟩
    · rcases h'.phase with ⟨hp', -⟩ | ⟨hp', -⟩
      · exact .inr ⟨hp, x, hp'.trans hx⟩
      · rw [hx] at hp'; cases hp'
  resolved := h'.resolved.trans h.resolved
  failed := h'.failed.trans h.failed
  fresh x := h'.fresh x ∘ h.fresh x

def contract (key : JsString) : Contract (View T) where
  inv := Keeps key
  rely := Meanwhile
  atLoop _ := True
  rely_refl := Meanwhile.refl
  rely_trans := Meanwhile.trans

/-- How a coordination may end. -/
def Outcome : Except JsError (CacheMissCoordinationResult T) → View T → Prop
  | .ok ⟨x, .upstream⟩, v => v.lo.resolved = some x
  | .ok ⟨x, .sharedCache⟩, v => v.lo.resolved = none ∧ v.store.fresh = some x
  | .ok ⟨_, .bypassed⟩, _ => False
  | .error _, v => v.lo.aborted = true ∨ v.lo.failed = true

/-- The outcome is as it should be, unless the wait deadline was reached. -/
def Ends (r : Except JsError (CacheMissCoordinationResult T)) (v : View T) : Prop :=
  v.lo.late = true ∨ Outcome r v

variable {settings}
variable {key owner : JsString} {t : Nat} {v v' : View T}

theorem Ends.mono {r : Except JsError (CacheMissCoordinationResult T)} (h : Ends r v)
    (hm : Meanwhile v v') : Ends r v' := by
  rcases h with h | h
  · exact .inl (hm.late.trans h)
  · refine .inr ?_
    rcases r with e | ⟨x, _ | _ | _⟩
    · exact h.imp hm.aborted hm.failed.trans
    · exact hm.resolved.trans h
    · exact ⟨hm.resolved.trans h.1, hm.fresh x h.2⟩
    · exact h

theorem Ends.frame {r : Except JsError (CacheMissCoordinationResult T)} (h : Ends r v)
    (hlate : v'.lo.late = v.lo.late) (hab : v'.lo.aborted = v.lo.aborted)
    (hres : v'.lo.resolved = v.lo.resolved) (hfail : v'.lo.failed = v.lo.failed)
    (hstore : v'.store = v.store) : Ends r v' := by
  rcases h with h | h
  · exact .inl (hlate.trans h)
  · refine .inr ?_
    rcases r with e | ⟨x, _ | _ | _⟩
    · exact h.imp hab.trans hfail.trans
    · exact hres.trans h
    · exact ⟨hres.trans h.1, by rw [hstore]; exact h.2⟩
    · exact h

/-- Between commands: nothing loaded yet, in the given phase. -/
structure Stage (key owner : JsString) (t : Nat) (phase : Phase T) (v : View T) : Prop where
  keeps : Keeps key v
  owner : v.lo.owner = owner
  started : v.lo.startedAt = some t
  phase : v.lo.phase = phase
  wrote : v.lo.wrote = none
  resolved : v.lo.resolved = none
  failed : v.lo.failed = false

theorem Stage.mono {phase : Phase T} (h : Stage key owner t phase v) (hm : Meanwhile v v')
    (hk : Keeps key v') (hp : phase ≠ .loading none) : Stage key owner t phase v' where
  keeps := hk
  owner := hm.owner.trans h.owner
  started := hm.startedAt.trans h.started
  phase := by
    rcases hm.phase with ⟨hp', -⟩ | ⟨hp', -⟩
    · exact hp'.trans h.phase
    · exact absurd (h.phase.symm.trans hp') hp
  wrote := by
    rcases hm.phase with ⟨-, hw⟩ | ⟨hp', -⟩
    · exact hw.trans h.wrote
    · exact absurd (h.phase.symm.trans hp') hp
  resolved := hm.resolved.trans h.resolved
  failed := hm.failed.trans h.failed

/-- An answer after which no load has begun. -/
theorem Keeps.answer {phase : Phase T} (hw : v.lo.wrote = none) (hres : v.lo.resolved = none)
    (hp : phase ≠ .loose) (hl : ∀ w, phase = .loading w → w = none) :
    Keeps key (v.answer phase) where
  read _ h := nomatch h
  acquires _ _ _ h := nomatch h
  releases _ _ h := nomatch h
  releasing _ _ h := nomatch h
  loose h := absurd h hp
  loading w h := hw.trans (hl w h).symm
  wrote h := absurd hw h
  resolved _ h := nomatch hres.symm.trans h

theorem Stage.answer {phase phase' : Phase T} (h : Stage key owner t phase v)
    (hp : phase' ≠ .loose) (hl : ∀ w, phase' = .loading w → w = none) :
    Stage key owner t phase' (v.answer phase') :=
  ⟨.answer h.wrote h.resolved hp hl, h.owner, h.started, rfl, h.wrote, h.resolved, h.failed⟩

/-- Sending a command before anything was written. -/
theorem Keeps.issue {c : CoordinatorCommand} (hw : v.lo.wrote = none)
    (hres : v.lo.resolved = none)
    (ha : ∀ k o ttlMs, c = .tryAcquireLease k o ttlMs → k = key ∧ o = v.lo.owner)
    (hr : ∀ k o, c ≠ .releaseLease k o) (hl : v.lo.phase.sent c ≠ .loose)
    (hload : ∀ w, v.lo.phase.sent c = .loading w → w = none) : Keeps key (issue c v) where
  read _ h := nomatch h
  acquires k o ttlMs h := ha k o ttlMs (Option.some.inj h)
  releases k o h := absurd (Option.some.inj h) (hr k o)
  releasing k o h := absurd (Option.some.inj h) (hr k o)
  loose h := absurd h hl
  loading w h := hw.trans (hload w h).symm
  wrote h := absurd hw h
  resolved _ h := nomatch hres.symm.trans h

theorem Keeps.release (h : Keeps key v) (ho : v.lo.owner = owner) :
    Keeps key (ColdMiss.issue (.releaseLease key owner) v) where
  read _ h := nomatch h
  acquires _ _ _ h := nomatch h
  releases k o h := by cases h; exact ⟨rfl, ho.symm⟩
  releasing _ _ _ := rfl
  loose h := nomatch h
  loading _ h := nomatch h
  wrote _ := .inr (.inr (.inl rfl))
  resolved := h.resolved

theorem Keeps.released (h : Keeps key v) : Keeps key (v.answer .done) where
  read _ h := nomatch h
  acquires _ _ _ h := nomatch h
  releases _ _ h := nomatch h
  releasing _ _ h := nomatch h
  loose h := nomatch h
  loading _ h := nomatch h
  wrote _ := .inr (.inr (.inr rfl))
  resolved := h.resolved

/-- A load settles; it was running, with a lease or without. -/
theorem Keeps.settled (h : Keeps key v)
    (hp : (∃ w, v.lo.phase = .loading w) ∨ v.lo.phase = .loose) :
    Keeps key (v.answer v.lo.phase.settled) where
  read _ h := nomatch h
  acquires _ _ _ h := nomatch h
  releases _ _ h := nomatch h
  releasing _ _ h := nomatch h
  loose hl := by rcases hp with ⟨w, hp⟩ | hp <;> simp [View.answer, hp, Phase.settled] at hl
  loading _ hl := by rcases hp with ⟨w, hp⟩ | hp <;> simp [View.answer, hp, Phase.settled] at hl
  wrote hw := by
    rcases hp with ⟨w, hp⟩ | hp
    · exact .inr (.inl (by simp [View.answer, hp, Phase.settled]))
    · have := h.wrote hw
      simp [hp] at this
  resolved := h.resolved

theorem Keeps.resolvedWith {x : T} (h : Keeps key v)
    (hp : v.lo.phase = .loading (some x) ∨ v.lo.phase = .loose) :
    Keeps key { v.answer v.lo.phase.settled with lo.resolved := some x } :=
  { h.settled (hp.imp (fun h => ⟨_, h⟩) id) with
    resolved := by
      intro y hy
      cases hy
      exact hp.symm.imp h.loose (h.loading _) }

def abortFlag (T : Type) [DecidableEq T] (settings : Settings) (key : JsString) :
    AbortFlag (storeHost settings) (contract key) (coordinatorRuntime T) where
  aborted v := v.lo.aborted
  wp_aborted _ _ hq := Host.wp_now rfl hq

/-- The rule for the commands that suspend. -/
theorem wp_command [DecidableEq T] {c : CoordinatorCommand}
    {Q : CoordinatorReply T c → View T → Prop}
    (hn : (storeHost settings).now c v = none) (hk : Keeps key (issue c v))
    (hq : ∀ v', Meanwhile (issue c v) v' → Keeps key v' →
      ∀ r v'', reply c r v' = some v'' → Q r v'') :
    (storeHost settings).wp (contract key) (command T c) Q v :=
  Host.wp_wait hn hk hq

/-- The reads of a coordination: what was executed is what is answered. -/
theorem wp_readFresh [DecidableEq T] {Q : Except JsError (Option T) → View T → Prop}
    {phase : Phase T} (hs : Stage key owner t phase v)
    (hq : ∀ v' fresh, Stage key owner t ((phase.sent .readFresh).answered fresh) v' →
      (∀ x, fresh = some x → v'.store.fresh = some x) → Q (.ok fresh) v') :
    (storeHost settings).wp (contract key) (readFresh T).run Q v := by
  have hp : (issue .readFresh v).lo.phase = phase.sent .readFresh := by rw [← hs.phase]; rfl
  have hsent : ∀ p : Phase T, p.sent .readFresh = .rechecking ∨ p.sent .readFresh = .polling := by
    intro p; cases p <;> simp [Phase.sent]
  have hafter : ∀ fresh, (phase.sent .readFresh).answered fresh ≠ .loose ∧
      ∀ w, (phase.sent .readFresh).answered fresh ≠ .loading w := by
    intro fresh
    rcases hsent phase with h | h <;> cases fresh <;> simp [h, Phase.answered]
  have hk : Keeps key (issue .readFresh v) := by
    refine .issue hs.wrote hs.resolved nofun nofun ?_ ?_
    · rcases hsent v.lo.phase with h | h <;> simp [h]
    · rcases hsent v.lo.phase with h | h <;> simp [h]
  refine wp_command rfl hk fun v1 hm hk1 r v2 hr => ?_
  have hs1 : Stage key owner t (phase.sent .readFresh) v1 := by
    refine Stage.mono ⟨hk, hs.owner, hs.started, hp, hs.wrote, hs.resolved, hs.failed⟩ hm hk1 ?_
    rcases hsent phase with h | h <;> simp [h]
  cases r with
  | error e => cases hr
  | ok fresh =>
    simp only [reply] at hr
    split at hr
    · rename_i hexec
      cases hr
      rw [hs1.phase]
      have h2 := hs1.answer (hafter fresh).1 fun w h => absurd h ((hafter fresh).2 w)
      refine hq _ fresh h2 fun x hx => ?_
      exact hk1.read x (by rw [hexec, hx])
    · cases hr

theorem ends_aborted {r : JsError} (h : v.lo.aborted = true) : Ends (T := T) (.error r) v :=
  .inr (.inl h)

def outline [DecidableEq T] (settings : Settings) (key owner : JsString) (t : Nat) :
    Outline (abortFlag T settings key) settings (leaseStore T) key owner
      (t + settings.cacheLeaseWaitMs) (readFresh T) (load T)
      (fun r v => Keeps key v ∧ Ends r v) where
  idle := Stage key owner t .idle
  asking := Stage key owner t .idle
  loose v := Stage key owner t .idle v ∧ v.lo.late = true
  held := Stage key owner t .held
  ready := Stage key owner t .missed
  beating := Stage key owner t .missed
  loaded r v := v.lo.owner = owner ∧ Keeps key v ∧ match r with
    | .ok x => v.lo.resolved = some x
    | .error _ => v.lo.failed = true
  closing r v := v.lo.owner = owner ∧ Keeps key v ∧ Ends r v
  refused := Stage key owner t .idle
  waiting := Stage key owner t .idle
  idle_inv _ hs := ⟨hs.keeps, trivial⟩
  idle_stable _ _ hs hr hk := hs.mono hr hk (by simp)
  enter v hs := by
    split
    · rename_i hab
      exact ⟨hs.keeps, ends_aborted hab⟩
    · exact hs
  acquire v hs := by
    have hk : Keeps key (issue (.tryAcquireLease key owner settings.cacheLeaseTtlMs) v) :=
      .issue hs.wrote hs.resolved (fun k o ttlMs h => by cases h; exact ⟨rfl, hs.owner.symm⟩)
        nofun nofun nofun
    refine wp_command rfl hk fun v1 hm hk1 r v2 hr => ?_
    have hs1 : Stage key owner t .asking v1 :=
      Stage.mono ⟨hk, hs.owner, hs.started, rfl, hs.wrote, hs.resolved, hs.failed⟩ hm hk1 nofun
    cases r with
    | error e => cases hr
    | ok granted =>
      simp only [reply] at hr
      split at hr
      · cases hr
        cases granted with
        | false =>
          have h2 : Stage key owner t .idle (v1.answer .idle) := hs1.answer nofun nofun
          exact unlessAborted_intro (fun hab => ⟨h2.keeps, ends_aborted hab⟩) h2
        | true =>
          have h2 : Stage key owner t .held (v1.answer .held) := hs1.answer nofun nofun
          exact unlessAborted_intro (fun hab => ⟨h2.keeps, ends_aborted hab⟩) h2
      · cases hr
  loadLoose v hs := by
    have hp : (issue .load v).lo.phase = .loose := by simp [issue, hs.1.phase, Phase.sent]
    have hk : Keeps key (issue .load v) :=
      ⟨nofun, nofun, nofun, nofun, fun _ => hs.2, fun w h => (nomatch hp.symm.trans h),
        fun h => absurd hs.1.wrote h, fun x h => (nomatch hs.1.resolved.symm.trans h)⟩
    refine wp_command rfl hk fun v1 hm hk1 r v2 hr => ?_
    have hlate : v1.lo.late = true := hm.late.trans hs.2
    have hp1 : v1.lo.phase = .loose := by
      rcases hm.phase with ⟨h, -⟩ | ⟨h, -⟩
      · exact h.trans hp
      · exact nomatch hp.symm.trans h
    cases r with
    | error e =>
      cases hr
      exact ⟨{ hk1.settled (.inr hp1) with }, .inl hlate⟩
    | ok x =>
      simp only [reply] at hr
      split at hr
      · cases hr
        exact ⟨hk1.resolvedWith (.inr hp1), .inl hlate⟩
      · cases hr
  recheck v hs := by
    refine wp_readFresh hs fun v1 fresh h1 hx => ?_
    refine unlessAborted_intro (fun hab => ⟨h1.owner, h1.keeps, ends_aborted hab⟩) ?_
    cases fresh with
    | none => exact h1
    | some x => exact ⟨h1.owner, h1.keeps, .inr ⟨h1.resolved, hx x rfl⟩⟩
  beat v hs := Host.wp_now rfl hs
  loadHeld v hs := by
    have hp : (issue .load v).lo.phase = .loading none := by simp [issue, hs.phase, Phase.sent]
    have hk : Keeps key (issue .load v) := by
      refine .issue hs.wrote hs.resolved nofun nofun (fun h => nomatch hp.symm.trans h)
        fun w h => ?_
      exact (Phase.loading.inj (hp.symm.trans h)).symm
    refine wp_command rfl hk fun v1 hm hk1 r v2 hr => ?_
    have howner : v1.lo.owner = owner := hm.owner.trans hs.owner
    have hp1 : ∃ w, v1.lo.phase = .loading w := by
      rcases hm.phase with ⟨h, -⟩ | ⟨-, x, h⟩
      · exact ⟨none, h.trans hp⟩
      · exact ⟨some x, h⟩
    cases r with
    | error e =>
      cases hr
      exact ⟨howner, { hk1.settled (.inl hp1) with }, rfl⟩
    | ok x =>
      simp only [reply] at hr
      split at hr
      · rename_i hx
        cases hr
        exact ⟨howner, hk1.resolvedWith hx, rfl⟩
      · cases hr
  stop r v hs := by
    refine Host.wp_now rfl ⟨hs.1, hs.2.1, .inr ?_⟩
    rcases r with e | x
    · exact .inr hs.2.2
    · exact hs.2.2
  release r v hs := by
    have hk := hs.2.1.release hs.1
    have hends : Ends r (issue (.releaseLease key owner) v) :=
      hs.2.2.frame rfl rfl rfl rfl rfl
    refine wp_command rfl hk fun v1 hm hk1 r' v2 hr => ?_
    cases r' with
    | error e => cases hr
    | ok _ =>
      simp only [reply] at hr
      split at hr
      · cases hr
        exact ⟨hk1.released, (hends.mono hm).frame rfl rfl rfl rfl rfl⟩
      · cases hr
  poll v hs := by
    refine wp_readFresh hs fun v1 fresh h1 hx => ?_
    refine unlessAborted_intro (fun hab => ⟨h1.keeps, ends_aborted hab⟩) ?_
    cases fresh with
    | none => exact h1
    | some x => exact ⟨h1.keeps, .inr ⟨h1.resolved, hx x rfl⟩⟩
  clock v hs := by
    have hn : now settings .dateNow v = some (v.lo.clock, { v with
        lo.late := v.lo.late || t + settings.cacheLeaseWaitMs ≤ v.lo.clock }) := by
      simp [now, hs.started]
    refine Host.wp_now hn ?_
    have hs' : Stage key owner t .idle { v with
        lo.late := v.lo.late || t + settings.cacheLeaseWaitMs ≤ v.lo.clock } :=
      { hs with keeps := { hs.keeps with
          loose := fun h => by simp [hs.keeps.loose h]
          resolved := fun x h => (hs.keeps.resolved x h).imp (fun h => by simp [h]) id } }
    split
    · rename_i hlate
      exact ⟨hs', by simp [hlate]⟩
    · exact hs'
  jitter v hs := Host.wp_now rfl { hs with keeps := { hs.keeps with } }
  doze delayMs v hs := by
    split
    · rename_i hab
      exact ⟨hs.keeps, ends_aborted hab⟩
    · have hp : (issue (.setTimeout delayMs) v).lo.phase = .idle := hs.phase
      have hk : Keeps key (issue (.setTimeout delayMs) v) :=
        .issue hs.wrote hs.resolved nofun nofun (fun h => nomatch hp.symm.trans h)
          fun w h => (nomatch hp.symm.trans h)
      refine wp_command rfl hk fun v1 hm hk1 r v2 hr => ?_
      have hs1 : Stage key owner t .idle v1 :=
        Stage.mono { hs with keeps := hk } hm hk1 nofun
      cases r with
      | ok _ =>
        cases hr
        exact hs1
      | error e =>
        cases e with
        | requestAborted =>
          simp only [reply] at hr
          split at hr
          · rename_i hab
            cases hr
            exact ⟨hk1, ends_aborted hab⟩
          · cases hr
        | _ => cases hr

end NewsApi.Cache.ColdMiss
