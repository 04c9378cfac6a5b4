import NewsApi.Cache.ColdMiss
import NewsApi.Collections.Slots

/-! # Runs of a cold miss

Participants arrive at any time; between two steps of one, the others run,
store commands take effect, heartbeats renew, signals abort and clocks advance.
The deduplication is proved for the runs in which nobody reaches its wait
deadline and no lease expires between its grant and the end of the load it
protects. -/
namespace NewsApi.Cache.ColdMiss
open NewsApi.Async NewsApi.Collections NewsApi.Text NewsApi.Errors NewsApi.Config

structure Replica (T : Type) where
  lo : Local T
  prog : Prog CoordinatorCommand (CoordinatorReply T)
    (Except JsError (CacheMissCoordinationResult T))

structure World (T : Type) where
  store : Store T
  replicas : List (Replica T)

inductive Event (T : Type) where
  | arrive (owner : JsString) (clock : Nat) (randoms : Nat → Rat)
  /-- the store executes the command that a participant has sent -/
  | execute (i : Nat)
  | resume (i : Nat) (answer : (c : CoordinatorCommand) → Option (CoordinatorReply T c))
  /-- a running load writes the entry -/
  | write (i : Nat) (x : T)
  /-- the store executes a renewal from a heartbeat -/
  | renew (i : Nat) (ttlMs : Lease.LeaseTtl)
  | abort (i : Nat)
  | tick (i : Nat) (ms : Nat)
  | elapse (ms : Nat)

def World.start (T : Type) (now : Nat) : World T where
  store := { db := { now := now, entries := fun _ => none }, fresh := none }
  replicas := []

def Local.start {T : Type} (owner : JsString) (clock : Nat) (randoms : Nat → Rat) : Local T where
  owner := owner
  aborted := false
  clock := clock
  randoms := randoms
  drawn := 0
  startedAt := none
  late := false
  phase := .idle
  pending := none
  executed := none
  wrote := none
  resolved := none
  failed := false
  lost := none

variable {T : Type}

/-- What the store does with a command. -/
def execute (store : Store T) : CoordinatorCommand → Option (Executed T × Store T)
  | .tryAcquireLease key owner ttlMs =>
    if h : 0 < ttlMs then
      let (granted, db) := Lease.tryAcquireLease key owner ⟨ttlMs, h⟩ store.db
      some (.acquired granted, { store with db := db })
    else none
  | .releaseLease key owner =>
    some (.released, { store with db := Lease.releaseLease key owner store.db })
  | .readFresh => some (.read store.fresh, store)
  | _ => none

/-- A participant whose lease has just expired. -/
def Local.expire (key : JsString) (before after : Lease.Db) (lo : Local T) : Local T :=
  if before.get key = some lo.owner ∧ after.get key ≠ some lo.owner then
    { lo with lost := some lo.phase }
  else lo

section
variable [DecidableEq T] (settings : Settings) (platform : Platform) (cacheKey : JsString)

def arrive (w : World T) (owner : JsString) (clock : Nat) (randoms : Nat → Rat) : World T :=
  let (prog, v) := (storeHost settings).advance (coordination T settings platform cacheKey)
    ⟨w.store, .start owner clock randoms⟩
  { w with replicas := w.replicas ++ [⟨v.lo, prog⟩] }

def resumeReplica (w : World T) (i : Nat) (p : Replica T)
    (answer : (c : CoordinatorCommand) → Option (CoordinatorReply T c)) : Option (World T) :=
  ((storeHost settings).resume answer p.prog ⟨w.store, p.lo⟩).map fun (prog, v) =>
    { w with replicas := w.replicas.set i ⟨v.lo, prog⟩ }

def World.setLocal (w : World T) (i : Nat) (p : Replica T) (lo : Local T) : World T :=
  { w with replicas := w.replicas.set i { p with lo := lo } }

def step (w : World T) : Event T → Option (World T)
  | .arrive owner clock randoms =>
    if w.replicas.any (·.lo.owner == owner) then none
    else some (arrive settings platform cacheKey w owner clock randoms)
  | .execute i => w.replicas[i]?.bind fun p =>
    if p.lo.executed.isSome then none
    else p.lo.pending.bind fun c => (execute w.store c).map fun (executed, store) =>
      { w.setLocal i p { p.lo with executed := some executed } with store := store }
  | .resume i answer => w.replicas[i]?.bind fun p => resumeReplica settings w i p answer
  | .write i x => w.replicas[i]?.bind fun p =>
    if p.lo.phase = .loading none then
      some { w.setLocal i p { p.lo with phase := .loading (some x), wrote := some x } with
        store.fresh := some x }
    else none
  | .renew i ttlMs => w.replicas[i]?.map fun p => { w with
      store.db := (Lease.renewLease (leaseKey platform cacheKey) p.lo.owner ttlMs w.store.db).2 }
  | .abort i => w.replicas[i]?.map fun p => w.setLocal i p { p.lo with aborted := true }
  | .tick i ms => w.replicas[i]?.map fun p =>
      w.setLocal i p { p.lo with clock := p.lo.clock + ms }
  | .elapse ms =>
    let db := w.store.db.elapse ms
    some {
      store := { w.store with db := db }
      replicas := w.replicas.map fun p => { p with
        lo := p.lo.expire (leaseKey platform cacheKey) w.store.db db } }

end

/-! ## The assumptions on a run -/

def Phase.isLoading : Phase T → Bool
  | .loading _ => true
  | _ => false

/-- No waiter has reached its wait deadline, and no load runs on a lease that
has expired since it was granted. -/
def Sheltered (w : World T) : Bool :=
  w.replicas.all fun p => !p.lo.late && !(p.lo.phase.isLoading && p.lo.lost.isSome)

/-- No waiter has reached its wait deadline, and no lease has expired while its
owner was loading. -/
def LoadingSheltered (w : World T) : Bool :=
  w.replicas.all fun p => !p.lo.late && !(p.lo.lost.any Phase.isLoading)

/-! ## The claim on a state -/

def Running (lo : Local T) : Prop := lo.phase.isLoading = true ∨ lo.phase = .loose

/-- One load at a time, one load that resolves, and everybody else who completes
returns what it wrote. -/
structure LoadedOnce (w : World T) : Prop where
  running : ∀ (i j : Nat) p q, w.replicas[i]? = some p → w.replicas[j]? = some q →
    Running p.lo → Running q.lo → i = j
  resolved : ∀ (i j : Nat) p q, w.replicas[i]? = some p → w.replicas[j]? = some q →
    p.lo.resolved.isSome → q.lo.resolved.isSome → i = j
  others : ∀ (i : Nat) p r, w.replicas[i]? = some p → p.prog = .pure r → p.lo.resolved = none →
    (∃ e, r = .error e ∧ (p.lo.failed = true ∨ p.lo.aborted = true)) ∨
    ∃ (j : Nat) (q : Replica T) (x : T), w.replicas[j]? = some q ∧ q.lo.wrote = some x ∧
      r = .ok ⟨x, .sharedCache⟩ ∧
      ∀ (k : Nat) q' y, w.replicas[k]? = some q' → q'.lo.resolved = some y → k = j ∧ y = x

/-! ## The invariant -/

/-- The participant has been granted the lease and not sent its release. -/
def Claims (lo : Local T) : Prop :=
  lo.executed = some (.acquired true) ∨ match lo.phase with
    | .held | .rechecking | .found | .missed | .loading _ | .loaded => True
    | _ => False

/-- It found the entry absent under the lease, and has not written it since. -/
def Missing (lo : Local T) : Prop :=
  lo.phase = .rechecking ∧ lo.executed = some (.read none) ∨ lo.phase = .missed ∨
    lo.phase = .loading none

/-- What a lease is worth as long as it has not expired. -/
structure LeaseOk (key : JsString) (v : View T) : Prop where
  claims : Claims v.lo → v.store.db.get key = some v.lo.owner ∨ v.lo.lost ≠ none
  missing : Missing v.lo → v.lo.lost = none → v.store.fresh = none

theorem claims_executed {lo : Local T} {executed : Executed T}
    (h : Claims { lo with executed := some executed }) :
    executed = .acquired true ∨ Claims lo :=
  h.imp Option.some.inj .inr

theorem missing_executed {lo : Local T} {executed : Executed T}
    (h : Missing { lo with executed := some executed }) :
    executed = .read none ∨ Missing lo :=
  h.imp (fun h => Option.some.inj h.2) .inr

theorem Missing.claims {lo : Local T} (h : Missing lo) : Claims lo := by
  rcases h with ⟨h, -⟩ | h | h <;> exact .inr (by simp [h])

section
variable {settings : Settings} {key : JsString}

/-- A participant's own step leaves the store, its name and its history alone. -/
structure Own (key : JsString) (v v' : View T) : Prop where
  store : v'.store = v.store
  owner : v'.lo.owner = v.lo.owner
  wrote : v'.lo.wrote = v.lo.wrote
  lease : LeaseOk key v → LeaseOk key v'

theorem own_refl (v : View T) : Own key v v := ⟨rfl, rfl, rfl, id⟩

theorem own_trans {v v' v'' : View T} (h : Own key v v') (h' : Own key v' v'') : Own key v v'' :=
  ⟨h'.store.trans h.store, h'.owner.trans h.owner, h'.wrote.trans h.wrote, h'.lease ∘ h.lease⟩

theorem own_now (c : CoordinatorCommand) (v : View T) (r : CoordinatorReply T c) (v' : View T)
    (h : now settings c v = some (r, v')) : Own key v v' := by
  cases c <;> simp only [now, Option.some.injEq, Prod.mk.injEq, reduceCtorEq] at h
  case dateNow =>
    split at h
    · obtain ⟨-, rfl⟩ := Prod.mk.inj (Option.some.inj h)
      exact ⟨rfl, rfl, rfl, fun hl => ⟨hl.claims, hl.missing⟩⟩
    · obtain ⟨-, rfl⟩ := Prod.mk.inj (Option.some.inj h)
      exact ⟨rfl, rfl, rfl, fun hl => ⟨hl.claims, hl.missing⟩⟩
  all_goals
    obtain ⟨-, rfl⟩ := h
    exact ⟨rfl, rfl, rfl, fun hl => ⟨hl.claims, hl.missing⟩⟩

theorem own_issue (c : CoordinatorCommand) (v : View T) : Own key v (issue c v) := by
  refine ⟨rfl, rfl, rfl, fun hl => ⟨fun hc => hl.claims ?_, fun hm => hl.missing ?_⟩⟩
  · -- sending a command grants nothing
    rcases hc with hc | hc
    · cases hc
    · refine .inr ?_
      cases c <;> cases hp : v.lo.phase <;> simp_all [issue, Phase.sent]
  · rcases hm with ⟨-, hm⟩ | hm
    · cases hm
    · cases c <;> cases hp : v.lo.phase <;> simp_all [issue, Phase.sent, Missing]

theorem LeaseOk.answer {v : View T} {phase : Phase T} (h : LeaseOk key v)
    (hc : Claims (v.answer phase).lo → Claims v.lo)
    (hm : Missing (v.answer phase).lo → Missing v.lo) : LeaseOk key (v.answer phase) :=
  ⟨fun h' => h.claims (hc h'), fun h' => h.missing (hm h')⟩

theorem own_answer {v : View T} {phase : Phase T}
    (hc : Claims (v.answer phase).lo → Claims v.lo)
    (hm : Missing (v.answer phase).lo → Missing v.lo) : Own key v (v.answer phase) :=
  ⟨rfl, rfl, rfl, fun h => h.answer hc hm⟩

theorem own_settled (v : View T) : Own key v (v.answer v.lo.phase.settled) := by
  refine own_answer (fun h => ?_) (fun h => ?_)
  · rcases h with h | h
    · cases h
    · refine .inr ?_
      cases hp : v.lo.phase <;> simp_all [View.answer, Phase.settled]
  · cases hp : v.lo.phase <;> simp_all [Missing, View.answer, Phase.settled]

theorem own_reply [DecidableEq T] (c : CoordinatorCommand) (r : CoordinatorReply T c)
    (v v' : View T) (h : reply c r v = some v') : Own key v v' := by
  unfold reply at h
  split at h
  · split at h <;> cases h
    rename_i granted hexec
    refine own_answer (fun h => ?_) (fun h => ?_)
    · cases granted
      · simp [Claims, View.answer] at h
      · exact .inl hexec
    · cases granted <;> simp [Missing, View.answer] at h
  · split at h <;> cases h
    rename_i fresh hexec
    refine own_answer (fun h => ?_) (fun h => ?_)
    · rcases h with h | h
      · cases h
      · refine .inr ?_
        cases hp : v.lo.phase <;> simp_all [View.answer, Phase.answered]
    · cases hp : v.lo.phase <;> cases fresh <;>
        simp_all [Missing, View.answer, Phase.answered]
  · split at h <;> cases h
    exact own_answer (fun h => by simp [Claims, View.answer] at h)
      fun h => by simp [Missing, View.answer] at h
  · split at h <;> cases h
    have : Own key v _ := own_settled v
    exact ⟨rfl, rfl, rfl, fun hl => ⟨(this.lease hl).claims, (this.lease hl).missing⟩⟩
  · cases h
    have : Own key v _ := own_settled v
    exact ⟨rfl, rfl, rfl, fun hl => ⟨(this.lease hl).claims, (this.lease hl).missing⟩⟩
  · cases h; exact own_refl v
  · split at h <;> cases h
    exact own_refl v
  · cases h

theorem own_advance [DecidableEq T] (settings : Settings) (key : JsString) {α : Type}
    (p : Prog CoordinatorCommand (CoordinatorReply T) α) (v : View T) :
    Own key v ((storeHost settings).advance p v).2 :=
  Host.advance_frame own_refl own_trans own_now own_issue p v

theorem own_resume [DecidableEq T] {α : Type}
    {answer : (c : CoordinatorCommand) → Option (CoordinatorReply T c)}
    {p p' : Prog CoordinatorCommand (CoordinatorReply T) α} {v v' : View T}
    (h : (storeHost settings).resume answer p v = some (p', v')) : Own key v v' :=
  Host.resume_frame own_refl own_trans own_now own_issue
    (fun c r s s' _ hr => own_reply c r s s' hr) h

end

section
variable [DecidableEq T] (settings : Settings) (key : JsString)

/-- What is known of one participant, whatever its program is doing. -/
structure Known (store : Store T) (p : Replica T) : Prop where
  keeps : Keeps key ⟨store, p.lo⟩
  lease : LeaseOk key ⟨store, p.lo⟩
  parked : (storeHost settings).parked (contract key) Ends p.prog ⟨store, p.lo⟩

structure Inv (w : World T) : Prop where
  distinct : ∀ (i j : Nat) p q, w.replicas[i]? = some p → w.replicas[j]? = some q →
    p.lo.owner = q.lo.owner → i = j
  known : ∀ (i : Nat) p, w.replicas[i]? = some p → Known settings key w.store p
  wrote : ∀ (i : Nat) p x, w.replicas[i]? = some p → p.lo.wrote = some x →
    w.store.fresh = some x
  source : ∀ x, w.store.fresh = some x →
    ∃ (i : Nat) (p : Replica T), w.replicas[i]? = some p ∧ p.lo.wrote = some x
  unique : ∀ (i j : Nat) p q, w.replicas[i]? = some p → w.replicas[j]? = some q →
    p.lo.wrote ≠ none → q.lo.wrote ≠ none → i = j

variable {settings key} {w w' : World T} {p : Replica T} {store' : Store T} {i : Nat}

theorem Known.transfer {lo : Local T} (h : Known settings key w.store p)
    (hm : Meanwhile ⟨w.store, p.lo⟩ ⟨store', lo⟩) (hk : Keeps key ⟨store', lo⟩)
    (hl : LeaseOk key ⟨store', lo⟩) : Known settings key store' { p with lo := lo } :=
  ⟨hk, hl, Host.parked_rely h.parked hm (fun _ he => he.mono hm) fun _ => trivial⟩

/-- A participant of whom only the lease in the store has changed. -/
theorem Known.otherLease (h : Known settings key w.store p) (hf : store'.fresh = w.store.fresh)
    (hc : w.store.db.get key = some p.lo.owner → store'.db.get key = some p.lo.owner) :
    Known settings key store' p := by
  refine h.transfer { Meanwhile.refl ⟨w.store, p.lo⟩ with fresh := fun x hx => hf.trans hx } ?_ ?_
  · exact { h.keeps with read := fun x hx => hf.trans (h.keeps.read x hx) }
  · exact ⟨fun hcl => (h.lease.claims hcl).imp hc id, fun hm hl => hf.trans (h.lease.missing hm hl)⟩

/-- The invariant after an event that writes no entry. -/
theorem Inv.pointwise (h : Inv settings key w) (hf : w'.store.fresh = w.store.fresh)
    (hlen : w'.replicas.length = w.replicas.length)
    (hall : ∀ (j : Nat) q', w'.replicas[j]? = some q' → ∃ q, w.replicas[j]? = some q ∧
      q'.lo.owner = q.lo.owner ∧ q'.lo.wrote = q.lo.wrote ∧ Known settings key w'.store q') :
    Inv settings key w' := by
  refine ⟨?_, ?_, ?_, ?_, ?_⟩
  · intro j k q r hq hr ho
    obtain ⟨q0, hq0, hqo, -⟩ := hall j q hq
    obtain ⟨r0, hr0, hro, -⟩ := hall k r hr
    exact h.distinct j k q0 r0 hq0 hr0 (by rw [← hqo, ← hro, ho])
  · intro j q hq
    obtain ⟨-, -, -, -, hk⟩ := hall j q hq
    exact hk
  · intro j q x hq hx
    obtain ⟨q0, hq0, -, hqw, -⟩ := hall j q hq
    rw [hf]
    exact h.wrote j q0 x hq0 (hqw ▸ hx)
  · intro x hx
    obtain ⟨j, q0, hq0, hx0⟩ := h.source x (hf ▸ hx)
    have hj : j < w'.replicas.length := hlen ▸ (List.getElem?_eq_some_iff.mp hq0).1
    obtain ⟨q1, hq1, -, hqw, -⟩ := hall j _ (List.getElem?_eq_getElem hj)
    cases hq0.symm.trans hq1
    exact ⟨j, _, List.getElem?_eq_getElem hj, hqw.trans hx0⟩
  · intro j k q r hq hr hqw hrw
    obtain ⟨q0, hq0, -, hqw0, -⟩ := hall j q hq
    obtain ⟨r0, hr0, -, hrw0, -⟩ := hall k r hr
    exact h.unique j k q0 r0 hq0 hr0 (hqw0 ▸ hqw) (hrw0 ▸ hrw)

/-- The invariant after an event of participant `i` that writes no entry. -/
theorem Inv.update {p' : Replica T} (h : Inv settings key w) (hi : w.replicas[i]? = some p)
    (hf : store'.fresh = w.store.fresh) (ho : p'.lo.owner = p.lo.owner)
    (hw : p'.lo.wrote = p.lo.wrote) (hself : Known settings key store' p')
    (hother : ∀ (j : Nat) q, j ≠ i → w.replicas[j]? = some q → Known settings key store' q) :
    Inv settings key { store := store', replicas := w.replicas.set i p' } := by
  refine h.pointwise hf List.length_set fun j q' hj => ?_
  rcases getElem?_set_cases hj with ⟨rfl, rfl⟩ | ⟨hne, hj⟩
  · exact ⟨p, hi, ho, hw, hself⟩
  · exact ⟨q', hj, rfl, rfl, hother j q' hne hj⟩

/-- A participant's signal aborts, or its clock advances. -/
theorem Inv.own {lo : Local T} (h : Inv settings key w) (hi : w.replicas[i]? = some p)
    (hm : Meanwhile ⟨w.store, p.lo⟩ ⟨w.store, lo⟩) (hw : lo.wrote = p.lo.wrote)
    (hk : Keeps key ⟨w.store, p.lo⟩ → Keeps key ⟨w.store, lo⟩)
    (hl : LeaseOk key ⟨w.store, p.lo⟩ → LeaseOk key ⟨w.store, lo⟩) :
    Inv settings key (w.setLocal i p lo) :=
  have hp := h.known i p hi
  h.update hi rfl hm.owner hw (hp.transfer hm (hk hp.keeps) (hl hp.lease))
    fun j q _ hq => h.known j q hq

theorem Inv.start (now : Nat) : Inv settings key (World.start T now) := by
  have hnone : ∀ (i : Nat) (p : Replica T), (World.start T now).replicas[i]? ≠ some p := by
    simp [World.start]
  refine ⟨?_, ?_, ?_, ?_, ?_⟩
  · exact fun i _ p _ hp => absurd hp (hnone i p)
  · exact fun i p hp => absurd hp (hnone i p)
  · exact fun i p _ hp => absurd hp (hnone i p)
  · intro x hx
    cases hx
  · exact fun i _ p _ hp => absurd hp (hnone i p)

/-! ## One step -/

/-- The store has executed the command of participant `i`. -/
theorem Inv.executed {executed : Executed T} (h : Inv settings key w)
    (hi : w.replicas[i]? = some p)
    (hread : ∀ x, executed = .read (some x) → w.store.fresh = some x)
    (hf : store'.fresh = w.store.fresh)
    (hl : LeaseOk key ⟨store', { p.lo with executed := some executed }⟩)
    (hother : ∀ (j : Nat) q, j ≠ i → w.replicas[j]? = some q →
      w.store.db.get key = some q.lo.owner → store'.db.get key = some q.lo.owner) :
    Inv settings key { w.setLocal i p { p.lo with executed := some executed } with
      store := store' } := by
  have hp := h.known i p hi
  refine h.update hi hf rfl rfl (hp.transfer ?_ ?_ hl) fun j q hj hq =>
    (h.known j q hq).otherLease hf (hother j q hj hq)
  · exact { Meanwhile.refl ⟨w.store, p.lo⟩ with fresh := fun x hx => hf.trans hx }
  · exact { hp.keeps with read := fun x hx => hf.trans (hread x (Option.some.inj hx)) }

theorem Inv.executeAcquire {ttlMs : Lease.LeaseTtl} {granted : Bool} {db' : Lease.Db}
    (h : Inv settings key w) (hi : w.replicas[i]? = some p)
    (he : Lease.tryAcquireLease key p.lo.owner ttlMs w.store.db = (granted, db')) :
    Inv settings key { w.setLocal i p { p.lo with executed := some (.acquired granted) } with
      store := { w.store with db := db' } } := by
  have hl := (h.known i p hi).lease
  have hmissing : Missing { p.lo with executed := some (.acquired granted) } → p.lo.lost = none →
      w.store.fresh = none := fun hm => hl.missing ((missing_executed hm).resolve_left nofun)
  cases granted with
  | true =>
    obtain ⟨hnone, hsome⟩ := Lease.tryAcquireLease_true he
    refine h.executed hi nofun rfl ⟨fun _ => .inl hsome, hmissing⟩ fun j q _ _ hq => ?_
    rw [hnone] at hq; cases hq
  | false =>
    have hdb := Lease.tryAcquireLease_false he
    subst hdb
    exact h.executed hi nofun rfl
      ⟨fun hc => hl.claims ((claims_executed hc).resolve_left nofun), hmissing⟩
      fun _ _ _ _ hq => hq

theorem Inv.executeRelease (h : Inv settings key w) (hi : w.replicas[i]? = some p)
    (hrel : p.lo.phase = .releasing) :
    Inv settings key { w.setLocal i p { p.lo with executed := some .released } with
      store := { w.store with db := Lease.releaseLease key p.lo.owner w.store.db } } := by
  refine h.executed hi nofun rfl ⟨fun hc => ?_, fun hm => ?_⟩ fun j q hj hq hget => ?_
  · rcases hc with hc | hc
    · cases hc
    · simp [hrel] at hc
  · rcases hm with ⟨-, hm⟩ | hm
    · cases hm
    · simp [hrel] at hm
  · -- another owner's lease is not the one that is deleted
    have hne : p.lo.owner ≠ q.lo.owner := fun ho => hj (h.distinct j i q p hq hi ho.symm)
    simp only [Lease.releaseLease_get, hget, Option.some.injEq, hne.symm, if_false]

theorem Inv.executeRead (h : Inv settings key w) (hi : w.replicas[i]? = some p) :
    Inv settings key
      (w.setLocal i p { p.lo with executed := some (.read w.store.fresh) }) := by
  have hl := (h.known i p hi).lease
  refine h.executed hi (fun x hx => Executed.read.inj hx) rfl ⟨fun hc => ?_, fun hm hlost => ?_⟩
    fun _ _ _ _ hq => hq
  · exact hl.claims ((claims_executed hc).resolve_left nofun)
  · rcases missing_executed hm with hm | hm
    · exact Executed.read.inj hm
    · exact hl.missing hm hlost

theorem Inv.execute {c : CoordinatorCommand} {executed : Executed T} (h : Inv settings key w)
    (hi : w.replicas[i]? = some p) (hc : p.lo.pending = some c)
    (he : execute w.store c = some (executed, store')) :
    Inv settings key { w.setLocal i p { p.lo with executed := some executed } with
      store := store' } := by
  have hk := (h.known i p hi).keeps
  cases c with
  | tryAcquireLease k o ttlMs =>
    obtain ⟨rfl, rfl⟩ := hk.acquires k o ttlMs hc
    simp only [ColdMiss.execute] at he
    split at he
    · cases he
      exact h.executeAcquire hi rfl
    · cases he
  | releaseLease k o =>
    obtain ⟨rfl, rfl⟩ := hk.releases k o hc
    have hrel := hk.releasing _ _ hc
    cases he
    exact h.executeRelease hi hrel
  | readFresh =>
    cases he
    exact h.executeRead hi
  | _ => cases he

/-- Whoever misses the entry under a lease that has not expired is the holder. -/
theorem Known.holds (h : Known settings key w.store p) (hm : Missing p.lo)
    (hlost : p.lo.lost = none) : w.store.db.get key = some p.lo.owner :=
  (h.lease.claims hm.claims).resolve_right fun hne => hne hlost

theorem Inv.sameHolder {q : Replica T} {j : Nat} (h : Inv settings key w)
    (hi : w.replicas[i]? = some p) (hj : w.replicas[j]? = some q)
    (hp : w.store.db.get key = some p.lo.owner) (hq : w.store.db.get key = some q.lo.owner) :
    j = i :=
  h.distinct j i q p hj hi (Option.some.inj (hq.symm.trans hp))

/-- A load under a lease that has not expired writes the entry. -/
theorem Inv.write (h : Inv settings key w) (hi : w.replicas[i]? = some p) (x : T)
    (hp : p.lo.phase = .loading none) (hlost : p.lo.lost = none) :
    Inv settings key { w.setLocal i p { p.lo with
      phase := .loading (some x), wrote := some x } with store.fresh := some x } := by
  have hk := h.known i p hi
  have hfresh : w.store.fresh = none := hk.lease.missing (.inr (.inr hp)) hlost
  have hholds := hk.holds (.inr (.inr hp)) hlost
  have hempty : ∀ y, w.store.fresh ≠ some y := by simp [hfresh]
  have hunread : ∀ {q : Replica T} {y : T}, Known settings key w.store q →
      q.lo.executed ≠ some (.read (some y)) := fun hq hread =>
    hempty _ (hq.keeps.read _ hread)
  have hunwritten : ∀ {q : Replica T} {j : Nat}, w.replicas[j]? = some q → q.lo.wrote = none :=
    fun {q j} hq => Option.eq_none_iff_forall_ne_some.mpr fun y hw =>
      hempty y (h.wrote j q y hq hw)
  have hself : Known settings key { w.store with fresh := some x }
      { p with lo := { p.lo with phase := .loading (some x), wrote := some x } } := by
    refine hk.transfer ⟨rfl, id, rfl, rfl, .inr ⟨hp, x, rfl⟩, rfl, rfl, ?_⟩ ?_ ⟨fun _ => ?_, ?_⟩
    · exact fun y hy => absurd hy (hempty y)
    · exact { hk.keeps with
        read := fun y hy => absurd hy (hunread hk)
        releasing := fun k o hr => by cases hp.symm.trans (hk.keeps.releasing k o hr)
        loose := fun hl => by cases hl
        loading := fun _ hl => Phase.loading.inj hl
        wrote := fun _ => .inl ⟨_, rfl⟩
        resolved := fun y hy => .inl ((hk.keeps.resolved y hy).resolve_right fun hw => by
          cases (hunwritten hi).symm.trans hw) }
    · exact .inl hholds
    · intro hm
      rcases hm with ⟨hm, -⟩ | hm | hm <;> cases hm
  have hother : ∀ (j : Nat) q, j ≠ i → w.replicas[j]? = some q →
      Known settings key { w.store with fresh := some x } q := by
    intro j q hj hq
    have hkq := h.known j q hq
    refine hkq.transfer { Meanwhile.refl ⟨w.store, q.lo⟩ with fresh := ?_ } ?_
      ⟨hkq.lease.claims, fun hm hl => ?_⟩
    · exact fun y hy => absurd hy (hempty y)
    · exact { hkq.keeps with read := fun y hy => absurd hy (hunread hkq) }
    · exact absurd (h.sameHolder hi hq hholds (hkq.holds hm hl)) hj
  have hcases : ∀ (j : Nat) q', (w.setLocal i p { p.lo with
      phase := .loading (some x), wrote := some x }).replicas[j]? = some q' →
      j = i ∧ q'.lo.owner = p.lo.owner ∧ q'.lo.wrote = some x ∧
        Known settings key { w.store with fresh := some x } q' ∨
      j ≠ i ∧ w.replicas[j]? = some q' := by
    intro j q' hj
    rcases getElem?_set_cases hj with ⟨rfl, rfl⟩ | hj
    · exact .inl ⟨rfl, rfl, rfl, hself⟩
    · exact .inr hj
  refine ⟨?_, ?_, ?_, ?_, ?_⟩
  · intro j k q r hq hr ho
    rcases hcases j q hq with ⟨hj, hqo, -⟩ | ⟨-, hq0⟩ <;>
      rcases hcases k r hr with ⟨hk, hro, -⟩ | ⟨-, hr0⟩
    · rw [hj, hk]
    · rw [hj]
      exact h.distinct i k p r hi hr0 (hqo.symm.trans ho)
    · rw [hk]
      exact h.distinct j i q p hq0 hi (ho.trans hro)
    · exact h.distinct j k q r hq0 hr0 ho
  · intro j q hq
    rcases hcases j q hq with ⟨-, -, -, hq⟩ | ⟨hj, hq⟩
    · exact hq
    · exact hother j q hj hq
  · intro j q y hq hy
    rcases hcases j q hq with ⟨-, -, hw, -⟩ | ⟨hj, hq⟩
    · exact hw.symm.trans hy
    · cases (hunwritten hq).symm.trans hy
  · intro y hy
    have hlen : i < (w.setLocal i p { p.lo with
        phase := .loading (some x), wrote := some x }).replicas.length := by
      rw [World.setLocal, List.length_set]
      exact (List.getElem?_eq_some_iff.mp hi).1
    refine ⟨i, _, List.getElem?_eq_getElem hlen, ?_⟩
    rcases hcases i _ (List.getElem?_eq_getElem hlen) with ⟨-, -, hw, -⟩ | ⟨hne, -⟩
    · exact hw.trans hy
    · exact absurd rfl hne
  · intro j k q r hq hr hqw hrw
    rcases hcases j q hq with ⟨rfl, -⟩ | ⟨-, hq⟩
    · rcases hcases k r hr with ⟨rfl, -⟩ | ⟨-, hr⟩
      · rfl
      · exact absurd (hunwritten hr) hrw
    · exact absurd (hunwritten hq) hqw

theorem Inv.renew (h : Inv settings key w) (ttlMs : Lease.LeaseTtl) (owner : JsString) :
    Inv settings key { w with
      store.db := (Lease.renewLease key owner ttlMs w.store.db).2 } := by
  refine h.pointwise rfl rfl fun j q hj => ⟨q, hj, rfl, rfl, ?_⟩
  exact (h.known j q hj).otherLease rfl fun hget => Lease.renewLease_get.trans hget

/-- A participant of whom the lease in the store may have expired. -/
theorem Known.mayLose {lost : Option (Phase T)} (h : Known settings key w.store p)
    (hf : store'.fresh = w.store.fresh) (hmark : p.lo.lost ≠ none → lost ≠ none)
    (hc : w.store.db.get key = some p.lo.owner →
      store'.db.get key = some p.lo.owner ∨ lost ≠ none) :
    Known settings key store' { p with lo := { p.lo with lost := lost } } := by
  refine h.transfer { Meanwhile.refl ⟨w.store, p.lo⟩ with fresh := fun x hx => hf.trans hx } ?_ ?_
  · exact { h.keeps with read := fun x hx => hf.trans (h.keeps.read x hx) }
  · refine ⟨fun hcl => (h.lease.claims hcl).elim hc (.inr ∘ hmark), fun hm hl => ?_⟩
    exact hf.trans (h.lease.missing hm (by_contra fun hne => hmark hne hl))

theorem Inv.elapse (h : Inv settings key w) (ms : Nat) :
    Inv settings key {
      store := { w.store with db := w.store.db.elapse ms }
      replicas := w.replicas.map fun p => { p with
        lo := p.lo.expire key w.store.db (w.store.db.elapse ms) } } := by
  refine h.pointwise rfl (List.length_map _) fun j q' hj => ?_
  obtain ⟨q, hq, rfl⟩ := Option.map_eq_some_iff.mp (List.getElem?_map.symm.trans hj)
  have hk := h.known j q hq
  refine ⟨q, hq, ?_⟩
  unfold Local.expire
  split
  · exact ⟨rfl, rfl, hk.mayLose rfl (fun _ => nofun) fun _ => .inr nofun⟩
  · rename_i hkept
    refine ⟨rfl, rfl, hk.mayLose rfl id fun hget => .inl ?_⟩
    exact by_contra fun hne => hkept ⟨hget, hne⟩

omit [DecidableEq T] in
theorem Keeps.start (store : Store T) (owner : JsString) (clock : Nat) (randoms : Nat → Rat)
    (startedAt : Option Nat) :
    Keeps key ⟨store, { Local.start owner clock randoms with startedAt := startedAt }⟩ :=
  ⟨nofun, nofun, nofun, nofun, nofun, nofun, fun h => absurd rfl h, nofun⟩

theorem wp_coordination (settings : Settings) (platform : Platform) (cacheKey : JsString)
    (store : Store T) (owner : JsString) (clock : Nat) (randoms : Nat → Rat) :
    (storeHost settings).wp (contract (leaseKey platform cacheKey))
      (coordination T settings platform cacheKey)
      (fun r v => Keeps (leaseKey platform cacheKey) v ∧ Ends r v)
      ⟨store, .start owner clock randoms⟩ := by
  refine wp_coordinateCacheMiss (abortFlag T settings (leaseKey platform cacheKey)) rfl ?_
  refine Host.wp_now rfl (Host.wp_now rfl ⟨outline settings _ owner clock, ?_⟩)
  exact ⟨.start .., rfl, rfl, rfl, rfl, rfl, rfl⟩

/-- The participant that has just arrived. -/
theorem arrive_known (settings : Settings) (platform : Platform) (cacheKey : JsString)
    (w : World T) (owner : JsString) (clock : Nat) (randoms : Nat → Rat) : ∃ p : Replica T,
    ColdMiss.arrive settings platform cacheKey w owner clock randoms =
      { w with replicas := w.replicas ++ [p] } ∧
    p.lo.owner = owner ∧ p.lo.wrote = none ∧
    Known settings (leaseKey platform cacheKey) w.store p := by
  have hown := own_advance settings (leaseKey platform cacheKey)
    (coordination T settings platform cacheKey) ⟨w.store, .start owner clock randoms⟩
  obtain ⟨hkeeps, hparked⟩ := Host.advance_sound
    (wp_coordination settings platform cacheKey w.store owner clock randoms)
  unfold ColdMiss.arrive
  generalize (storeHost settings).advance (coordination T settings platform cacheKey)
    ⟨w.store, .start owner clock randoms⟩ = r at hown hkeeps hparked ⊢
  obtain ⟨prog, store, lo⟩ := r
  obtain rfl : store = w.store := hown.store
  have hlease : LeaseOk (leaseKey platform cacheKey) ⟨w.store, .start owner clock randoms⟩ :=
    ⟨fun hc => hc.elim nofun False.elim, fun hm => hm.elim (nomatch ·.1) (·.elim nofun nofun)⟩
  exact ⟨⟨lo, prog⟩, rfl, hown.owner, hown.wrote, hkeeps, hown.lease hlease, hparked⟩

/-- A participant arrives, with a name of its own. -/
theorem Inv.arrive {platform : Platform} {cacheKey owner : JsString} {clock : Nat}
    {randoms : Nat → Rat} (h : Inv settings (leaseKey platform cacheKey) w)
    (hnew : ∀ q ∈ w.replicas, q.lo.owner ≠ owner) :
    Inv settings (leaseKey platform cacheKey)
      (ColdMiss.arrive settings platform cacheKey w owner clock randoms) := by
  obtain ⟨p, heq, ho, hw, hknown⟩ :=
    arrive_known settings platform cacheKey w owner clock randoms
  rw [heq]
  have hcases : ∀ (j : Nat) q, (w.replicas ++ [p])[j]? = some q →
      w.replicas[j]? = some q ∨ j = w.replicas.length ∧ q = p := by
    intro j q hj
    exact (getElem?_append_cases hj).imp_left And.right
  have hold : ∀ (j : Nat) q, w.replicas[j]? = some q → q.lo.owner ≠ owner := fun j q hq =>
    hnew q (List.mem_of_getElem? hq)
  refine ⟨?_, ?_, ?_, ?_, ?_⟩
  · intro j k q r hq hr hqr
    rcases hcases j q hq with hq0 | ⟨hj, rfl⟩ <;> rcases hcases k r hr with hr0 | ⟨hk, rfl⟩
    · exact h.distinct j k q r hq0 hr0 hqr
    · exact absurd (hqr.trans ho) (hold j q hq0)
    · exact absurd (hqr.symm.trans ho) (hold k r hr0)
    · rw [hj, hk]
  · intro j q hq
    rcases hcases j q hq with hq0 | ⟨-, rfl⟩
    · exact h.known j q hq0
    · exact hknown
  · intro j q x hq hx
    rcases hcases j q hq with hq0 | ⟨-, rfl⟩
    · exact h.wrote j q x hq0 hx
    · cases hw.symm.trans hx
  · intro x hx
    obtain ⟨j, q, hq, hqx⟩ := h.source x hx
    exact ⟨j, q, getElem?_append_old hq _, hqx⟩
  · intro j k q r hq hr hqw hrw
    rcases hcases j q hq with hq0 | ⟨-, rfl⟩
    · rcases hcases k r hr with hr0 | ⟨-, rfl⟩
      · exact h.unique j k q r hq0 hr0 hqw hrw
      · exact absurd hw hrw
    · exact absurd hw hqw

theorem Inv.resume {answer : (c : CoordinatorCommand) → Option (CoordinatorReply T c)}
    (h : Inv settings key w) (hi : w.replicas[i]? = some p)
    (hr : resumeReplica settings w i p answer = some w') : Inv settings key w' := by
  obtain ⟨⟨prog, store, lo⟩, hres, rfl⟩ := Option.map_eq_some_iff.mp hr
  have hp := h.known i p hi
  have hown : Own key ⟨w.store, p.lo⟩ ⟨store, lo⟩ := own_resume hres
  obtain ⟨hkeeps, hparked⟩ := Host.resume_sound hp.keeps hp.parked hres
  obtain rfl : store = w.store := hown.store
  exact h.update hi rfl hown.owner hown.wrote ⟨hkeeps, hown.lease hp.lease, hparked⟩
    fun j q _ hq => h.known j q hq

variable {platform : Platform} {cacheKey : JsString}

omit [DecidableEq T] in
theorem Sheltered.known (hs : Sheltered w = true) (hi : w.replicas[i]? = some p) :
    p.lo.late = false ∧ (p.lo.phase.isLoading = true → p.lo.lost = none) := by
  have := List.all_eq_true.mp hs p (List.mem_of_getElem? hi)
  simp only [Bool.and_eq_true, Bool.not_eq_true', Bool.and_eq_false_iff] at this
  refine ⟨this.1, fun hl => ?_⟩
  simpa using this.2.resolve_left (by simp [hl])

/-- One step of a run in which every load is sheltered by its lease. -/
theorem Inv.step {e : Event T} (h : Inv settings (leaseKey platform cacheKey) w)
    (hs : Sheltered w = true) (he : ColdMiss.step settings platform cacheKey w e = some w') :
    Inv settings (leaseKey platform cacheKey) w' := by
  cases e with
  | arrive owner clock randoms =>
    simp only [ColdMiss.step] at he
    split at he <;> cases he
    rename_i hnew
    exact h.arrive fun q hq ho => hnew (List.any_eq_true.mpr ⟨q, hq, by simp [ho]⟩)
  | execute i =>
    obtain ⟨p, hi, he⟩ := Option.bind_eq_some_iff.mp he
    split at he
    · cases he
    · obtain ⟨c, hc, he⟩ := Option.bind_eq_some_iff.mp he
      obtain ⟨⟨executed, store⟩, hexec, rfl⟩ := Option.map_eq_some_iff.mp he
      exact h.execute hi hc hexec
  | resume i answer =>
    obtain ⟨p, hi, he⟩ := Option.bind_eq_some_iff.mp he
    exact h.resume hi he
  | write i x =>
    obtain ⟨p, hi, he⟩ := Option.bind_eq_some_iff.mp he
    split at he <;> cases he
    rename_i hp
    exact h.write hi x hp ((Sheltered.known hs hi).2 (by simp [hp, Phase.isLoading]))
  | renew i ttlMs =>
    obtain ⟨p, -, rfl⟩ := Option.map_eq_some_iff.mp he
    exact h.renew ttlMs p.lo.owner
  | abort i =>
    obtain ⟨p, hi, rfl⟩ := Option.map_eq_some_iff.mp he
    exact h.own hi { Meanwhile.refl ⟨w.store, p.lo⟩ with aborted := fun _ => rfl }
      rfl (fun hk => { hk with }) fun hl => ⟨hl.claims, hl.missing⟩
  | tick i ms =>
    obtain ⟨p, hi, rfl⟩ := Option.map_eq_some_iff.mp he
    exact h.own hi { Meanwhile.refl ⟨w.store, p.lo⟩ with }
      rfl (fun hk => { hk with }) fun hl => ⟨hl.claims, hl.missing⟩
  | elapse ms =>
    cases he
    exact h.elapse ms

/-- A state reached without a late waiter or a load on an expired lease. -/
theorem reachable_inv {now : Nat}
    (h : Reachable (restrict Sheltered (ColdMiss.step settings platform cacheKey))
      (World.start T now) w) :
    Inv settings (leaseKey platform cacheKey) w ∧ Sheltered w = true := by
  refine h.invariant (P := fun w => Inv settings (leaseKey platform cacheKey) w ∧
    Sheltered w = true) ⟨.start now, rfl⟩ fun w e w' hw he => ?_
  obtain ⟨hstep, hs⟩ := restrict_eq_some.mp he
  exact ⟨hw.1.step hw.2 hstep, hs⟩

/-! ## At most one load -/

theorem Inv.running (h : Inv settings key w) (hs : Sheltered w = true)
    (hi : w.replicas[i]? = some p) (hr : Running p.lo) :
    w.store.db.get key = some p.lo.owner := by
  have hk := h.known i p hi
  obtain ⟨hlate, hlost⟩ := Sheltered.known hs hi
  rcases hr with hl | hl
  · have hclaims : Claims p.lo := by
      refine .inr ?_
      cases hp : p.lo.phase <;> simp_all [Phase.isLoading]
    exact (hk.lease.claims hclaims).resolve_right fun hne => hne (hlost hl)
  · cases hlate.symm.trans (hk.keeps.loose hl)

theorem Inv.resolved {x : T} (h : Inv settings key w) (hs : Sheltered w = true)
    (hi : w.replicas[i]? = some p) (hr : p.lo.resolved = some x) : p.lo.wrote = some x :=
  ((h.known i p hi).keeps.resolved x hr).resolve_left (by simp [(Sheltered.known hs hi).1])

/-- Who completes without a load that resolved was aborted, or its load failed,
or it returns the entry. -/
theorem Inv.completed {r : Except JsError (CacheMissCoordinationResult T)}
    (h : Inv settings key w) (hs : Sheltered w = true) (hi : w.replicas[i]? = some p)
    (hp : p.prog = .pure r) (hr : p.lo.resolved = none) :
    (∃ e, r = .error e ∧ (p.lo.failed = true ∨ p.lo.aborted = true)) ∨
      ∃ x, r = .ok ⟨x, .sharedCache⟩ ∧ w.store.fresh = some x := by
  have hends := (h.known i p hi).parked
  rw [hp] at hends
  rcases hends with hlate | hends
  · cases (Sheltered.known hs hi).1.symm.trans hlate
  · rcases r with e | ⟨x, _ | _ | _⟩
    · exact .inl ⟨e, rfl, hends.symm⟩
    · cases hr.symm.trans hends
    · exact .inr ⟨x, rfl, hends.2⟩
    · exact hends.elim

/-- As long as nobody reaches its wait deadline and no lease expires between its
grant and the end of the load it protects, a cold miss is loaded once. -/
theorem loaded_once {now : Nat}
    (h : Reachable (restrict Sheltered (ColdMiss.step settings platform cacheKey))
      (World.start T now) w) : LoadedOnce w := by
  obtain ⟨hinv, hs⟩ := reachable_inv h
  refine ⟨?_, ?_, ?_⟩
  · intro i j p q hi hj hp hq
    exact hinv.sameHolder hj hi (hinv.running hs hj hq) (hinv.running hs hi hp)
  · intro i j p q hi hj hp hq
    obtain ⟨x, hx⟩ := Option.isSome_iff_exists.mp hp
    obtain ⟨y, hy⟩ := Option.isSome_iff_exists.mp hq
    exact hinv.unique i j p q hi hj (by simp [hinv.resolved hs hi hx])
      (by simp [hinv.resolved hs hj hy])
  · intro i p r hi hp hr
    refine (hinv.completed hs hi hp hr).imp_right ?_
    rintro ⟨x, rfl, hx⟩
    obtain ⟨j, q, hq, hqx⟩ := hinv.source x hx
    refine ⟨j, q, x, hq, hqx, rfl, fun k q' y hk hy => ?_⟩
    have hwrote := hinv.resolved hs hk hy
    refine ⟨hinv.unique k j q' q hk hq (by simp [hwrote]) (by simp [hqx]), ?_⟩
    exact Option.some.inj ((hinv.wrote k q' y hk hwrote).symm.trans hx)

end

/-! ## Sample runs -/

/-- Answers to the commands of a participant, once they have been executed. -/
def answering (granted : Bool) (fresh : Option Nat) :
    (c : CoordinatorCommand) → Option (CoordinatorReply Nat c)
  | .tryAcquireLease _ _ _ => some (.ok granted)
  | .readFresh => some (.ok fresh)
  | .releaseLease _ _ => some (.ok ())
  | .load => some (.ok 7)
  | _ => none

def arrival (owner : String) : Event Nat := .arrive (js owner) 0 fun _ => 0

/-- Two participants: the first is granted the lease and loads, the second is
refused and finds what the first has written. -/
def sharedLoad : List (Event Nat) :=
  [arrival "a", .resume 0 (answering true none), .execute 0, .resume 0 (answering true none),
    arrival "b", .resume 1 (answering false none), .execute 1, .resume 1 (answering false none),
    .execute 0, .resume 0 (answering true none), .write 0 7,
    .execute 1, .resume 1 (answering false (some 7)), .resume 0 (answering true none)]

theorem loaded_once_sharedLoad :
    ∃ w, Reachable (restrict Sheltered (step Settings.default .plain (js "k")))
      (World.start Nat 0) w ∧
      w.replicas.map (fun p => (p.lo.resolved, p.lo.phase)) =
        [(some 7, .releasing), (none, .idle)] ∧ LoadedOnce w := by
  have hrun : (run (restrict Sheltered (step Settings.default .plain (js "k")))
      (World.start Nat 0) sharedLoad).map
        (fun w => w.replicas.map fun p => (p.lo.resolved, p.lo.phase)) =
      some [(some 7, .releasing), (none, .idle)] := rfl
  obtain ⟨w, hw, hp⟩ := Option.map_eq_some_iff.mp hrun
  exact ⟨w, ⟨_, hw⟩, hp, loaded_once ⟨_, hw⟩⟩

/-- The first lease expires while its owner reads the cache again. -/
def expiredRecheck : List (Event Nat) :=
  [arrival "a", .resume 0 (answering true none), .execute 0, .resume 0 (answering true none),
    .elapse 5001,
    arrival "b", .resume 1 (answering true none), .execute 1, .resume 1 (answering true none),
    .execute 1, .resume 1 (answering true none),
    .execute 0, .resume 0 (answering true none)]

/-- Both load, although no lease has expired during a load. -/
theorem loaded_twice_expiredRecheck :
    ∃ w, Reachable (restrict LoadingSheltered (step Settings.default .plain (js "k")))
      (World.start Nat 0) w ∧ ¬LoadedOnce w := by
  have hrun : (run (restrict LoadingSheltered (step Settings.default .plain (js "k")))
      (World.start Nat 0) expiredRecheck).map
        (fun w => w.replicas.map fun p => p.lo.phase) =
      some [.loading none, .loading none] := rfl
  obtain ⟨w, hw, hp⟩ := Option.map_eq_some_iff.mp hrun
  refine ⟨w, ⟨_, hw⟩, fun h => ?_⟩
  have hphase : ∀ i < 2, ∃ p, w.replicas[i]? = some p ∧ p.lo.phase = .loading none := by
    intro i hi
    have hget : (w.replicas.map fun p => p.lo.phase)[i]? = some (.loading none) := by
      rw [hp]
      match i, hi with
      | 0, _ | 1, _ => rfl
    rw [List.getElem?_map] at hget
    exact Option.map_eq_some_iff.mp hget
  obtain ⟨p, hp0, hl0⟩ := hphase 0 (by decide)
  obtain ⟨q, hq1, hl1⟩ := hphase 1 (by decide)
  exact absurd (h.running 0 1 p q hp0 hq1 (.inl (by simp [hl0, Phase.isLoading]))
    (.inl (by simp [hl1, Phase.isLoading]))) (by decide)

end NewsApi.Cache.ColdMiss
