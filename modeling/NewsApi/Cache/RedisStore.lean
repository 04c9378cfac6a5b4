import NewsApi.Cache.Lease
import NewsApi.Http.ParsedJson
import NewsApi.Runtime.Commands

/-! # The Redis store

Values are stored as JSON texts. A command is sent to the server and executed
there; `get` parses the text that it is answered. -/
namespace NewsApi.Cache
open NewsApi.Text NewsApi.Types NewsApi.Errors NewsApi.JsonText NewsApi.Http NewsApi.Redis
open NewsApi.Runtime NewsApi.Cache.Lease

/-- What the clients of the store send to the server. -/
inductive ServerCommand where
  | get (key : JsString)
  | setex (key : JsString) (ttlSec : Nat) (text : JsString)
  | del (key : JsString)
  | setPxNx (key owner : JsString) (ttlMs : Nat)
  | evalRelease (key owner : JsString)

/-- `createRedisStore(url)`: the command that a method sends. -/
def serverCommand : Command → Option ServerCommand
  | .storeGet key => some (.get key)
  | .storeSet key value ttlSec => (stringify (ofJson value)).map (.setex key ttlSec)
  | .storeDelete key => some (.del key)
  | .tryAcquireLease key owner ttlMs => some (.setPxNx key owner ttlMs)
  | .releaseLease key owner => some (.evalRelease key owner)
  | _ => none

/-- The server after a command. -/
def ServerCommand.execute (db : Db) : ServerCommand → Db
  | .get _ => db
  | .setex key ttlSec text => db.setex key ttlSec text
  | .del key => (db.del key).2
  | .setPxNx key owner ttlMs => (db.setNxPx key owner ttlMs).2
  | .evalRelease key owner => Lease.releaseLease key owner db

/-- `parseRedisCacheValue(raw)` -/
def parseRedisCacheValue (raw : JsString) : Except JsError JsonData :=
  match parseJson raw with
  | some data => .ok data
  | none => .error (.cacheCorruption "invalid JSON in Redis cache entry")

/-- What `get` makes of the server's answer. -/
def getReply : Option JsString → Except JsError (Option Json)
  | none => .ok none
  | some raw => (parseRedisCacheValue raw).map fun data => some (valueOf data)

/-- The text of a parsed value is answered with what that is read back as. -/
theorem getReply_text {value : Json} {raw : JsString} (h : IsParsed value)
    (htext : stringify (ofJson value) = some raw) :
    getReply (some raw) = .ok (some (reread value)) := by
  obtain ⟨text, data, hstringify, hparse, hvalue⟩ := stringify_parsed h
  cases htext.symm.trans hstringify
  simp only [getReply, parseRedisCacheValue, hparse, Except.map, hvalue]

/-! ## What a command does to other keys -/

section
variable {db : Db} {key k : JsString}

theorem releaseLease_lookup_ne {owner : JsString} (h : key ≠ k) :
    (Lease.releaseLease k owner db).lookup key = db.lookup key := by
  unfold Lease.releaseLease RELEASE_LEASE_SCRIPT
  split
  · exact Keyspace.lookup_del_ne db h
  · rfl

theorem setNxPx_lookup_ne {owner : JsString} {ttlMs : Nat} (h : key ≠ k) :
    (db.setNxPx k owner ttlMs).2.lookup key = db.lookup key := by
  unfold Keyspace.setNxPx
  split
  · rfl
  · exact Keyspace.lookup_put_ne db _ h

/-- A key holds what it held, nothing, or the text just set for it. -/
theorem execute_get {command : ServerCommand} {raw : JsString}
    (hlease : ∀ k owner ttlMs, command = .setPxNx k owner ttlMs → key ≠ k)
    (h : (command.execute db).get key = some raw) :
    db.get key = some raw ∨ ∃ ttlSec, command = .setex key ttlSec raw := by
  have hsame : ∀ {db' : Db}, db'.lookup key = db.lookup key → db'.get key = some raw →
      db.get key = some raw := by
    intro db' hlookup hget
    rwa [Keyspace.get, hlookup] at hget
  cases command with
  | get k => exact .inl h
  | setex k ttlSec text =>
    by_cases hk : key = k
    · subst hk
      rw [ServerCommand.execute, Keyspace.get, Keyspace.lookup_setex_self, Option.map_some,
        Option.some.injEq] at h
      exact .inr ⟨ttlSec, congrArg _ h⟩
    · exact .inl (hsame (Keyspace.lookup_setex_ne db ttlSec text hk) h)
  | del k =>
    by_cases hk : key = k
    · subst hk
      rw [ServerCommand.execute, Keyspace.get, Keyspace.lookup_del_self] at h
      cases h
    · exact .inl (hsame (Keyspace.lookup_del_ne db hk) h)
  | setPxNx k owner ttlMs =>
    exact .inl (hsame (setNxPx_lookup_ne (hlease k owner ttlMs rfl)) h)
  | evalRelease k owner =>
    by_cases hk : key = k
    · subst hk
      rw [ServerCommand.execute, releaseLease_get] at h
      split at h
      · cases h
      · exact .inl h
    · exact .inl (hsame (releaseLease_lookup_ne hk) h)

end

end NewsApi.Cache
