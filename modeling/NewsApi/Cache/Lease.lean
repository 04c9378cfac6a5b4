import NewsApi.Async.Run
import NewsApi.Config.Settings
import NewsApi.Redis.Keyspace

/-! # Who holds a lease

The lease commands as Redis executes them, against what a lease is for: one
owner at a time, until it releases the lease or its time ends. Commands reach
the server in any order and after any delay, also from owners whose lease has
expired, so a run is any sequence of executed commands, passing time and other
clients' writes. -/
namespace NewsApi.Cache.Lease
open NewsApi.Async NewsApi.Text NewsApi.Redis

abbrev Db := Keyspace JsString JsString

/-- A lease's time to live. Settings resolve to positive values only. -/
structure LeaseTtl where
  ms : Nat
  pos : 0 < ms

/-! ## The commands -/

/-- `RELEASE_LEASE_SCRIPT`, with `KEYS[1]` and `ARGV[1]`. -/
def RELEASE_LEASE_SCRIPT (key arg : JsString) (db : Db) : Nat × Db :=
  if db.get key = some arg then db.del key else (0, db)

/-- `RENEW_LEASE_SCRIPT`, with `KEYS[1]`, `ARGV[1]` and `ARGV[2]`. -/
def RENEW_LEASE_SCRIPT (key arg : JsString) (ttlMs : Nat) (db : Db) : Nat × Db :=
  if db.get key = some arg then db.pexpire key ttlMs else (0, db)

def tryAcquireLease (key owner : JsString) (ttlMs : LeaseTtl) (db : Db) : Bool × Db :=
  db.setNxPx key owner ttlMs.ms

def releaseLease (key owner : JsString) (db : Db) : Db := (RELEASE_LEASE_SCRIPT key owner db).2

def renewLease (key owner : JsString) (ttlMs : LeaseTtl) (db : Db) : Bool × Db :=
  let (result, db) := RENEW_LEASE_SCRIPT key owner ttlMs.ms db
  (result == 1, db)

/-! ## The token at the key -/

section
variable {key owner : JsString} {ttlMs : LeaseTtl} {db db' : Db}

theorem tryAcquireLease_true (h : tryAcquireLease key owner ttlMs db = (true, db')) :
    db.get key = none ∧ db'.get key = some owner := by
  unfold tryAcquireLease Keyspace.setNxPx at h
  split at h
  · cases h
  · rename_i hnone
    cases h
    simp [Keyspace.get, hnone]

theorem tryAcquireLease_false (h : tryAcquireLease key owner ttlMs db = (false, db')) :
    db' = db := by
  unfold tryAcquireLease Keyspace.setNxPx at h
  split at h <;> cases h
  rfl

theorem releaseLease_get : (releaseLease key owner db).get key =
    if db.get key = some owner then none else db.get key := by
  unfold releaseLease RELEASE_LEASE_SCRIPT Keyspace.del
  split
  · split
    · simp [Keyspace.get]
    · rename_i hnone
      simp [Keyspace.get, hnone]
  · rfl

theorem renewLease_get : (renewLease key owner ttlMs db).2.get key = db.get key := by
  have hpos := Nat.ne_of_gt ttlMs.pos
  show (RENEW_LEASE_SCRIPT key owner ttlMs.ms db).2.get key = _
  unfold RENEW_LEASE_SCRIPT Keyspace.pexpire
  split
  · cases h : db.lookup key with
    | none => simp [Keyspace.get, h]
    | some e => simp only [Keyspace.get, h, Keyspace.lookup_put_fresh, Option.map_some]
  · rfl

end

/-! ## What a lease is

Owners instead of tokens, and no keyspace: who holds the lease, and until when. -/

structure Held (Owner : Type) where
  owner : Owner
  expiresAt : Nat

inductive LeaseCommand (Owner : Type) where
  | acquire (o : Owner) (ttlMs : LeaseTtl)
  | renew (o : Owner) (ttlMs : LeaseTtl)
  | release (o : Owner)

variable {Owner : Type}

namespace Held

/-- Execute a command; a release has no reply of interest. -/
def exec [DecidableEq Owner] (now : Nat) (lease : Option (Held Owner)) :
    LeaseCommand Owner → Bool × Option (Held Owner)
  | .acquire o ttlMs =>
    match lease with
    | none => (true, some ⟨o, now + ttlMs.ms⟩)
    | some held => (false, some held)
  | .renew o ttlMs =>
    match lease with
    | none => (false, none)
    | some held =>
      if held.owner = o then (true, some ⟨o, now + ttlMs.ms⟩) else (false, some held)
  | .release o =>
    match lease with
    | none => (true, none)
    | some held => (true, if held.owner = o then none else some held)

/-- What is left of a lease at `now`. -/
def remaining (now : Nat) (lease : Option (Held Owner)) : Option (Held Owner) :=
  lease.filter fun held => now ≤ held.expiresAt

end Held

/-! ## The keyspace implements the lease -/

section
variable (token : Owner → JsString) (key : JsString)

/-- The reply and the effect of a command on the server. -/
def exec (db : Db) : LeaseCommand Owner → Bool × Db
  | .acquire o ttlMs => tryAcquireLease key (token o) ttlMs db
  | .renew o ttlMs => renewLease key (token o) ttlMs db
  | .release o => (true, releaseLease key (token o) db)

/-- The lease as the server stores it. -/
def entryOf (held : Held Owner) : Entry JsString := ⟨token held.owner, some held.expiresAt⟩

def Represents (db : Db) (lease : Option (Held Owner)) : Prop :=
  db.lookup key = lease.map (entryOf token)

variable {token key} {db : Db} {lease : Option (Held Owner)}

theorem Represents.get (h : Represents token key db lease) :
    db.get key = lease.map fun held => token held.owner := by
  rw [Keyspace.get, h, Option.map_map]; rfl

theorem Represents.get_eq_some (distinct : Function.Injective token)
    (h : Represents token key db lease) (o : Owner) :
    db.get key = some (token o) ↔ ∃ held, lease = some held ∧ held.owner = o := by
  rw [h.get]
  cases lease with
  | none => simp
  | some held => simp [distinct.eq_iff]

theorem exec_now (c : LeaseCommand Owner) : (exec token key db c).2.now = db.now := by
  cases c with
  | acquire o ttlMs =>
    simp only [exec, tryAcquireLease, Keyspace.setNxPx]
    split <;> rfl
  | renew o ttlMs =>
    simp only [exec, renewLease, RENEW_LEASE_SCRIPT, Keyspace.pexpire]
    split
    · split <;> rfl
    · rfl
  | release o =>
    simp only [exec, releaseLease, RELEASE_LEASE_SCRIPT, Keyspace.del]
    split
    · split <;> rfl
    · rfl

/-- Every command replies and acts as the lease says. -/
theorem exec_refines [DecidableEq Owner] (distinct : Function.Injective token)
    (h : Represents token key db lease)
    (c : LeaseCommand Owner) :
    (exec token key db c).1 = (Held.exec db.now lease c).1 ∧
      Represents token key (exec token key db c).2 (Held.exec db.now lease c).2 := by
  have hget := h.get
  unfold Represents at h ⊢
  cases c with
  | acquire o ttlMs =>
    cases lease with
    | none => simp [exec, tryAcquireLease, Keyspace.setNxPx, Held.exec, entryOf, h]
    | some held => simp [exec, tryAcquireLease, Keyspace.setNxPx, Held.exec, h]
  | renew o ttlMs =>
    have hpos := Nat.ne_of_gt ttlMs.pos
    cases lease with
    | none => simp_all [exec, renewLease, RENEW_LEASE_SCRIPT, Held.exec]
    | some held =>
      by_cases ho : held.owner = o
      · subst ho
        simp_all [exec, renewLease, RENEW_LEASE_SCRIPT, Held.exec, Keyspace.pexpire, entryOf]
      · have : token held.owner ≠ token o := fun e => ho (distinct e)
        simp_all [exec, renewLease, RENEW_LEASE_SCRIPT, Held.exec]
  | release o =>
    cases lease with
    | none => simp_all [exec, releaseLease, RELEASE_LEASE_SCRIPT, Held.exec]
    | some held =>
      by_cases ho : held.owner = o
      · subst ho
        simp_all [exec, releaseLease, RELEASE_LEASE_SCRIPT, Held.exec, Keyspace.del]
      · have : token held.owner ≠ token o := fun e => ho (distinct e)
        simp_all [exec, releaseLease, RELEASE_LEASE_SCRIPT, Held.exec]

theorem elapse_refines (h : Represents token key db lease) (ms : Nat) :
    Represents token key (db.elapse ms) (Held.remaining (db.now + ms) lease) := by
  unfold Represents at h ⊢
  rw [Keyspace.lookup_elapse, h]
  cases lease with
  | none => rfl
  | some held =>
    simp [Held.remaining, entryOf, Entry.alive, Option.filter, apply_ite (Option.map _)]

end

/-! ## Runs -/

/-- The server, and what each owner has been told: until when its lease was
granted or renewed, unless it has released it since. -/
structure System (Owner : Type) where
  db : Db
  granted : Owner → Option Nat

inductive Event (Owner : Type) where
  | exec (c : LeaseCommand Owner)
  | elapse (ms : Nat)
  | sweep (k : JsString)
  /-- any other command, on another key -/
  | write (k : JsString) (e : Option (Entry JsString))

def System.start (now : Nat) : System Owner where
  db := { now := now, entries := fun _ => none }
  granted := fun _ => none

section
variable [DecidableEq Owner]

/-- An owner's record after the reply to its command. -/
def account (now : Nat) (granted : Owner → Option Nat) (reply : Bool) :
    LeaseCommand Owner → Owner → Option Nat
  | .acquire o ttlMs | .renew o ttlMs =>
    if reply then Function.update granted o (some (now + ttlMs.ms)) else granted
  | .release o => Function.update granted o none

def step (token : Owner → JsString) (key : JsString) (s : System Owner) :
    Event Owner → Option (System Owner)
  | .exec c =>
    let (reply, db) := exec token key s.db c
    some { db := db, granted := account s.db.now s.granted reply c }
  | .elapse ms => some { s with db := s.db.elapse ms }
  | .sweep k => some { s with db := s.db.sweep k }
  | .write k e => if k = key then none else some { s with db := s.db.put k e }

end

/-- By its own record the owner has the lease now. -/
def System.Owns (s : System Owner) (o : Owner) : Prop :=
  ∃ t, s.granted o = some t ∧ s.db.now ≤ t

/-- The records of the owners and the keyspace tell of the same lease. -/
def Agrees (token : Owner → JsString) (key : JsString) (s : System Owner)
    (lease : Option (Held Owner)) : Prop :=
  Represents token key s.db lease ∧
    ∀ o t, s.granted o = some t ∧ s.db.now ≤ t ↔ lease = some ⟨o, t⟩

section
variable [DecidableEq Owner] {token : Owner → JsString} {key : JsString} {s s' : System Owner}
  {lease : Option (Held Owner)}

/-- The lease after an event. -/
def Held.next (now : Nat) (lease : Option (Held Owner)) : Event Owner → Option (Held Owner)
  | .exec c => (Held.exec now lease c).2
  | .elapse ms => Held.remaining (now + ms) lease
  | .sweep _ | .write _ _ => lease

theorem account_agrees {now : Nat} {granted : Owner → Option Nat}
    (h : ∀ o t, granted o = some t ∧ now ≤ t ↔ lease = some ⟨o, t⟩) (c : LeaseCommand Owner)
    (o : Owner) (t : Nat) :
    account now granted (Held.exec now lease c).1 c o = some t ∧ now ≤ t ↔
      (Held.exec now lease c).2 = some ⟨o, t⟩ := by
  cases c with
  | acquire p ttlMs =>
    cases lease with
    | some held => exact h o t
    | none =>
      by_cases ho : o = p
      · subst ho
        simp [Held.exec, account]
        omega
      · have : ¬(granted o = some t ∧ now ≤ t) := fun hg => nomatch (h o t).mp hg
        simpa [Held.exec, account, Function.update_of_ne ho, Ne.symm ho] using this
  | renew p ttlMs =>
    cases lease with
    | none => exact h o t
    | some held =>
      by_cases hp : held.owner = p
      · by_cases ho : o = p
        · subst ho
          simp [Held.exec, account, hp]
          omega
        · have : ¬(granted o = some t ∧ now ≤ t) := fun hg => by
            have := Option.some.inj ((h o t).mp hg)
            exact ho (by rw [← hp, this])
          simpa [Held.exec, account, hp, Function.update_of_ne ho, Ne.symm ho] using this
      · simpa [Held.exec, account, hp] using h o t
  | release p =>
    by_cases ho : o = p
    · subst ho
      cases lease with
      | none => simp [Held.exec, account]
      | some held =>
        simp only [Held.exec, account, Function.update_self]
        split
        · simp
        · rename_i hne
          simp only [reduceCtorEq, false_and, false_iff, Option.some.injEq]
          intro he
          exact hne (by rw [he])
    · cases lease with
      | none => simpa [Held.exec, account, Function.update_of_ne ho] using h o t
      | some held =>
        simp only [Held.exec, account, Function.update_of_ne ho, h o t]
        split
        · rename_i hp
          simp only [Option.some.injEq, reduceCtorEq, iff_false]
          intro he
          exact ho (by rw [← hp, he])
        · rfl

/-- Every event acts on the keyspace and the records as on the lease. -/
theorem step_agrees (distinct : Function.Injective token) (h : Agrees token key s lease)
    {e : Event Owner} (hs : step token key s e = some s') :
    Agrees token key s' (Held.next s.db.now lease e) := by
  obtain ⟨hrep, hown⟩ := h
  cases e with
  | exec c =>
    obtain ⟨hr, hd⟩ := exec_refines distinct hrep c
    have he := Option.some.inj hs
    subst he
    refine ⟨hd, fun o t => ?_⟩
    show account s.db.now s.granted (exec token key s.db c).1 c o = some t ∧
      (exec token key s.db c).2.now ≤ t ↔ _
    rw [hr, exec_now]
    exact account_agrees hown c o t
  | elapse ms =>
    have he := Option.some.inj hs
    subst he
    refine ⟨elapse_refines hrep ms, fun o t => ?_⟩
    have hot := hown o t
    simp only [Keyspace.elapse, Held.next, Held.remaining, Option.filter_eq_some_iff,
      decide_eq_true_eq]
    rw [← hot]
    constructor
    · rintro ⟨hg, ht⟩
      exact ⟨⟨hg, by omega⟩, ht⟩
    · rintro ⟨⟨hg, -⟩, ht⟩
      exact ⟨hg, ht⟩
  | sweep k =>
    have he := Option.some.inj hs
    subst he
    refine ⟨(Keyspace.lookup_sweep s.db key k).trans hrep, fun o t => ?_⟩
    rw [Keyspace.sweep_now]
    exact hown o t
  | write k e =>
    simp only [step] at hs
    split at hs
    · cases hs
    · rename_i hk
      have he := Option.some.inj hs
      subst he
      exact ⟨(Keyspace.lookup_put_ne s.db e (Ne.symm hk)).trans hrep, hown⟩

/-- In every reachable state there is one lease that all records agree with. -/
theorem reachable_agrees (distinct : Function.Injective token) {now : Nat}
    (h : Reachable (step token key) (System.start now) s) : ∃ lease, Agrees token key s lease := by
  refine h.invariant (P := fun s => ∃ lease, Agrees token key s lease) ⟨none, rfl, ?_⟩ ?_
  · simp [System.start]
  · rintro s e s' ⟨lease, hl⟩ hs
    exact ⟨_, step_agrees distinct hl hs⟩

omit [DecidableEq Owner] in
theorem Agrees.owns_iff (distinct : Function.Injective token) (h : Agrees token key s lease)
    (o : Owner) : s.Owns o ↔ s.db.get key = some (token o) := by
  rw [h.1.get_eq_some distinct]
  constructor
  · rintro ⟨t, ht⟩
    exact ⟨_, (h.2 o t).mp ht, rfl⟩
  · rintro ⟨⟨_, t⟩, hl, rfl⟩
    exact ⟨t, (h.2 _ t).mpr hl⟩

/-! ## What happens to the holder -/

theorem Held.next_loses {now : Nat} {held : Held Owner} {e : Event Owner}
    (hne : ∀ h', Held.next now (some held) e = some h' → h'.owner ≠ held.owner) :
    Held.next now (some held) e = none ∧
      (e = .exec (.release held.owner) ∨ ∃ ms, e = .elapse ms ∧ held.expiresAt < now + ms) := by
  cases e with
  | exec c =>
    cases c with
    | acquire o ttlMs => exact absurd rfl (hne held rfl)
    | renew o ttlMs =>
      by_cases ho : held.owner = o
      · exact absurd ho.symm (hne ⟨o, now + ttlMs.ms⟩ (by simp [Held.next, Held.exec, ho]))
      · exact absurd rfl (hne held (by simp [Held.next, Held.exec, ho]))
    | release o =>
      by_cases ho : held.owner = o
      · exact ⟨by simp [Held.next, Held.exec, ho], .inl (by rw [ho])⟩
      · exact absurd rfl (hne held (by simp [Held.next, Held.exec, ho]))
  | elapse ms =>
    by_cases ht : now + ms ≤ held.expiresAt
    · exact absurd rfl (hne held (by simp [Held.next, Held.remaining, Option.filter, ht]))
    · exact ⟨by simp [Held.next, Held.remaining, Option.filter, ht], .inr ⟨ms, rfl, by omega⟩⟩
  | sweep k => exact absurd rfl (hne held rfl)
  | write k e => exact absurd rfl (hne held rfl)

theorem Held.next_stranger (now : Nat) {lease : Option (Held Owner)} {o : Owner} {e : Event Owner}
    (hl : ∀ held, lease = some held → held.owner ≠ o)
    (he : (∃ ttlMs, e = .exec (.renew o ttlMs)) ∨ e = .exec (.release o)) :
    Held.next now lease e = lease := by
  obtain ⟨ttlMs, rfl⟩ | rfl := he <;>
  · cases lease with
    | none => rfl
    | some held => simp [Held.next, Held.exec, hl held rfl]

/-- A lease has one owner at a time. It passes from its owner only by that
owner's release or by expiry, whatever commands other owners still have under
way, and their renewals and releases change nothing. -/
theorem lease_ownership (distinct : Function.Injective token) {now : Nat}
    (h : Reachable (step token key) (System.start now) s) :
    (∀ o, s.Owns o ↔ s.db.get key = some (token o)) ∧
    (∀ o o', s.Owns o → s.Owns o' → o = o') ∧
    (∀ o ttlMs, (renewLease key (token o) ttlMs s.db).1 = true ↔
      s.db.get key = some (token o)) ∧
    ∀ e s', step token key s e = some s' →
      (∀ o, s.db.get key = some (token o) → s'.db.get key ≠ some (token o) →
        s'.db.get key = none ∧ (e = .exec (.release o) ∨
          ∃ ms t, e = .elapse ms ∧ s.granted o = some t ∧ t < s'.db.now)) ∧
      (∀ o, s.db.get key ≠ some (token o) →
        (∃ ttlMs, e = .exec (.renew o ttlMs)) ∨ e = .exec (.release o) →
        s'.db.lookup key = s.db.lookup key) := by
  obtain ⟨lease, hl⟩ := reachable_agrees distinct h
  have owns := hl.owns_iff distinct
  refine ⟨owns, ?_, ?_, ?_⟩
  · intro o o' ho ho'
    exact distinct (Option.some.inj (((owns o).mp ho).symm.trans ((owns o').mp ho')))
  · intro o ttlMs
    rw [hl.1.get_eq_some distinct]
    have := (exec_refines distinct hl.1 (.renew o ttlMs)).1
    simp only [exec] at this
    rw [this]
    cases lease with
    | none => simp [Held.exec]
    | some held => by_cases ho : held.owner = o <;> simp [Held.exec, ho]
  · intro e s' hs
    have hl' := step_agrees distinct hl hs
    constructor
    · intro o ho hne
      obtain ⟨held, rfl, rfl⟩ := (hl.1.get_eq_some distinct o).mp ho
      obtain ⟨hnone, he⟩ := Held.next_loses fun h' hn heq =>
        hne ((hl'.1.get_eq_some distinct _).mpr ⟨h', hn, heq⟩)
      refine ⟨by rw [hl'.1.get, hnone]; rfl, he.imp id ?_⟩
      rintro ⟨ms, rfl, ht⟩
      refine ⟨ms, held.expiresAt, rfl, ((hl.2 _ _).mpr rfl).1, ?_⟩
      rw [← Option.some.inj hs]
      exact ht
    · intro o ho he
      have hstranger := Held.next_stranger s.db.now (fun held hh heq =>
        ho ((hl.1.get_eq_some distinct o).mpr ⟨held, hh, heq⟩)) he
      rw [hstranger] at hl'
      exact hl'.1.trans hl.1.symm

end

/-- Two owners' tokens, for a run in which the lease of `true` expires, `false`
acquires it, and `true` renews too late. -/
def tokenOf (b : Bool) : JsString := if b then js "a" else js "b"

def secondOwner : List (Event Bool) :=
  [.exec (.acquire true ⟨5, by decide⟩), .elapse 6, .exec (.acquire false ⟨5, by decide⟩)]

theorem lease_ownership_late_renewal :
    ∃ s, run (step tokenOf (js "k")) (System.start 0) secondOwner = some s ∧
      s.db.get (js "k") = some (tokenOf false) ∧
      ¬ (renewLease (js "k") (tokenOf true) ⟨5, by decide⟩ s.db).1 = true := by
  have distinct : Function.Injective tokenOf := by
    intro a b; revert a b; decide
  obtain ⟨s, hs⟩ : ∃ s, run (step tokenOf (js "k")) (System.start 0) secondOwner = some s :=
    ⟨_, rfl⟩
  have hget : s.db.get (js "k") = some (tokenOf false) := by
    have : (run (step tokenOf (js "k")) (System.start 0) secondOwner).map
        (fun s => s.db.get (js "k")) = some (some (tokenOf false)) := by decide
    rw [hs] at this
    exact Option.some.inj this
  refine ⟨s, hs, hget, ?_⟩
  rw [(lease_ownership distinct ⟨_, hs⟩).2.2.1 true, hget]
  decide

end NewsApi.Cache.Lease
