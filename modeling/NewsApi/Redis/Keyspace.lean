import Mathlib.Logic.Function.Basic

/-! # A keyspace with expiry

The commands of a Redis server on string keys. Commands are executed one at a
time, so each is a function of the keyspace. A key whose time is over is absent
for every command, whether or not it has been removed yet. -/
namespace NewsApi.Redis

structure Entry (V : Type) where
  value : V
  /-- in milliseconds; the key is alive up to and including this time -/
  expiresAt : Option Nat
  deriving DecidableEq

def Entry.alive {V : Type} (now : Nat) (e : Entry V) : Bool :=
  match e.expiresAt with
  | none => true
  | some t => now ≤ t

structure Keyspace (K V : Type) where
  now : Nat
  entries : K → Option (Entry V)

namespace Keyspace
variable {K V : Type}

def lookup (db : Keyspace K V) (key : K) : Option (Entry V) :=
  (db.entries key).filter (·.alive db.now)

def get (db : Keyspace K V) (key : K) : Option V := (db.lookup key).map Entry.value

def elapse (db : Keyspace K V) (ms : Nat) : Keyspace K V := { db with now := db.now + ms }

theorem lookup_elapse (db : Keyspace K V) (key : K) (ms : Nat) :
    (db.elapse ms).lookup key = (db.lookup key).filter (·.alive (db.now + ms)) := by
  have later : ∀ e : Entry V, e.alive (db.now + ms) = true → e.alive db.now = true := by
    intro e h
    unfold Entry.alive at h ⊢
    split at h
    · rfl
    · simp only [decide_eq_true_eq] at h ⊢; omega
  simp only [lookup, elapse]
  cases db.entries key with
  | none => rfl
  | some e =>
    have := later e
    cases h1 : e.alive (db.now + ms) <;> cases h2 : e.alive db.now <;> simp_all [Option.filter]

/-- An entry that can be found is alive. -/
theorem lookup_alive {db : Keyspace K V} {key : K} {e : Entry V} (h : db.lookup key = some e) :
    e.alive db.now = true :=
  (Option.filter_eq_some_iff.mp h).2

/-- Time only takes entries away. -/
theorem lookup_of_elapse {db : Keyspace K V} {key : K} {ms : Nat} {e : Entry V}
    (h : (db.elapse ms).lookup key = some e) : db.lookup key = some e := by
  rw [lookup_elapse] at h
  exact (Option.filter_eq_some_iff.mp h).1

/-- An entry stays until its time is over. -/
theorem lookup_elapse_alive {db : Keyspace K V} {key : K} {ms : Nat} {e : Entry V}
    (h : db.lookup key = some e) (ha : e.alive (db.now + ms) = true) :
    (db.elapse ms).lookup key = some e := by
  rw [lookup_elapse, h]
  exact Option.filter_eq_some_iff.mpr ⟨rfl, ha⟩

variable [DecidableEq K]

def put (db : Keyspace K V) (key : K) (e : Option (Entry V)) : Keyspace K V :=
  { db with entries := Function.update db.entries key e }

/-- `SET key value PX ttl NX`; the reply is whether it was `OK`. -/
def setNxPx (db : Keyspace K V) (key : K) (value : V) (ttlMs : Nat) : Bool × Keyspace K V :=
  match db.lookup key with
  | some _ => (false, db)
  | none => (true, db.put key (some ⟨value, some (db.now + ttlMs)⟩))

def setex (db : Keyspace K V) (key : K) (ttlSec : Nat) (value : V) : Keyspace K V :=
  db.put key (some ⟨value, some (db.now + ttlSec * 1000)⟩)

def del (db : Keyspace K V) (key : K) : Nat × Keyspace K V :=
  match db.lookup key with
  | some _ => (1, db.put key none)
  | none => (0, db)

/-- A time to live that is not positive deletes the key. -/
def pexpire (db : Keyspace K V) (key : K) (ttlMs : Nat) : Nat × Keyspace K V :=
  match db.lookup key with
  | some e => (1, db.put key (if ttlMs = 0 then none else some { e with
      expiresAt := some (db.now + ttlMs) }))
  | none => (0, db)

/-- The server's own removal of a key that has expired. -/
def sweep (db : Keyspace K V) (key : K) : Keyspace K V :=
  match db.lookup key with
  | some _ => db
  | none => db.put key none

/-! ## What the commands do to a key -/

theorem lookup_put_self (db : Keyspace K V) (key : K) (e : Option (Entry V)) :
    (db.put key e).lookup key = e.filter (·.alive db.now) := by
  simp [lookup, put]

theorem lookup_put_ne (db : Keyspace K V) {key k : K} (e : Option (Entry V)) (h : key ≠ k) :
    (db.put k e).lookup key = db.lookup key := by
  simp [lookup, put, Function.update_of_ne h]

@[simp] theorem lookup_put_none (db : Keyspace K V) (key : K) :
    (db.put key none).lookup key = none := by
  simp [lookup_put_self]

@[simp] theorem lookup_put_fresh (db : Keyspace K V) (key : K) (v : V) (ttlMs : Nat) :
    (db.put key (some ⟨v, some (db.now + ttlMs)⟩)).lookup key =
      some ⟨v, some (db.now + ttlMs)⟩ := by
  simp [lookup_put_self, Entry.alive, Option.filter]

@[simp] theorem lookup_setex_self (db : Keyspace K V) (key : K) (ttlSec : Nat) (value : V) :
    (db.setex key ttlSec value).lookup key = some ⟨value, some (db.now + ttlSec * 1000)⟩ :=
  lookup_put_fresh db key value _

theorem lookup_setex_ne (db : Keyspace K V) {key k : K} (ttlSec : Nat) (value : V) (h : key ≠ k) :
    (db.setex k ttlSec value).lookup key = db.lookup key :=
  lookup_put_ne db _ h

theorem lookup_del_self (db : Keyspace K V) (key : K) : (db.del key).2.lookup key = none := by
  unfold del
  split
  · exact lookup_put_none db key
  · assumption

theorem lookup_del_ne (db : Keyspace K V) {key k : K} (h : key ≠ k) :
    (db.del k).2.lookup key = db.lookup key := by
  unfold del
  split
  · exact lookup_put_ne db none h
  · rfl

@[simp] theorem del_now (db : Keyspace K V) (key : K) : (db.del key).2.now = db.now := by
  unfold del
  split <;> rfl

@[simp] theorem sweep_now (db : Keyspace K V) (key : K) : (db.sweep key).now = db.now := by
  unfold sweep; split <;> rfl

theorem lookup_sweep (db : Keyspace K V) (key k : K) : (db.sweep k).lookup key = db.lookup key := by
  unfold sweep
  split
  · rfl
  · rename_i h
    by_cases hk : key = k
    · subst hk; rw [lookup_put_none, h]
    · exact lookup_put_ne db none hk

end Keyspace

end NewsApi.Redis
