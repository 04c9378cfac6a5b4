import NewsApi.Config.Numbers
import NewsApi.Redis.Keyspace
import NewsApi.Services.CacheUse
import NewsApi.Services.Evolution

/-! # A process and its store

A process over a store whose commands succeed and which drops an entry only
when its time is over. The store executes a command at some time between its
being sent and its being answered. Its clock only goes forward, and need not be
the clock of the process. The lease commands may be answered in any way. -/
namespace NewsApi.Services
open NewsApi.Async NewsApi.Text NewsApi.Types NewsApi.Config NewsApi.Errors NewsApi.Cache
open NewsApi.Runtime NewsApi.Redis

def resolveStaleCacheTtlSec (raw : Option JsString) : Nat :=
  let configured := resolvePositiveIntegerEnv raw 3600 86400
  if configured > 600 then configured else 3600

/-- The stale entry outlives the fresh one, whatever is configured. -/
theorem ttl_lt_stale (raw : Option JsString) : TTL_SEC < resolveStaleCacheTtlSec raw := by
  unfold resolveStaleCacheTtlSec TTL_SEC
  simp only
  split <;> omega

/-- `raw` is `process.env.STALE_CACHE_TTL_SEC`. -/
def resolved (settings : Settings) (raw : Option JsString) : Settings :=
  { settings with staleCacheTtlSec := resolveStaleCacheTtlSec raw }

/-! ## The store -/

abbrev Db := Keyspace JsString Json

/-- What the store answers a command that it has executed. -/
inductive Executed where
  | value (found : Option Json)
  | done

def execute (db : Db) : Command → Option (Executed × Db)
  | .storeGet key => some (.value (db.get key), db)
  | .storeSet key value ttlSec => some (.done, db.setex key ttlSec value)
  | .storeDelete key => some (.done, (db.del key).2)
  | _ => none

def Executed.answer : Executed → (c : Command) → Option (Reply c)
  | .value found, .storeGet _ => some (.ok found)
  | .done, .storeSet _ _ _ => some (.ok ())
  | .done, .storeDelete _ => some (.ok ())
  | _, _ => none

/-- The commands of the store are answered with what was executed. -/
def storeAnswer (executed : Option Executed) (answer : (c : Command) → Option (Reply c)) :
    (c : Command) → Option (Reply c)
  | .storeGet key => executed.bind (·.answer (.storeGet key))
  | .storeSet key value ttlSec => executed.bind (·.answer (.storeSet key value ttlSec))
  | .storeDelete key => executed.bind (·.answer (.storeDelete key))
  | c => answer c

/-! ## The system -/

structure Backed : Type 1 where
  process : Process
  db : Db
  /-- for the lookup of each call and the work of each search, the answer to the
  command it waits for, once that is executed -/
  lookups : Nat → Option Executed
  works : Nat → Option Executed
  /-- history only: the writes of each search that were executed, and when,
  newest first -/
  landed : Nat → List (JsString × Nat)

inductive BackedEvent where
  | process (event : Event)
  | executeLookup (i : Nat)
  | executeWork (n : Nat)
  | elapse (ms : Nat)
  | sweep (key : JsString)

def Backed.initial (db : Db) : Backed where
  process := .initial
  db := db
  lookups _ := none
  works _ := none
  landed _ := []

def Backed.answered (b : Backed) : Event → Event
  | .callReply i answer => .callReply i (storeAnswer (b.lookups i) answer)
  | .jobReply n answer => .jobReply n (storeAnswer (b.works n) answer)
  | event => event

/-- The answer that was delivered is gone. -/
def Backed.delivered (b : Backed) : Event → Backed
  | .callReply i _ => { b with lookups := Function.update b.lookups i none }
  | .jobReply n _ => { b with works := Function.update b.works n none }
  | _ => b

def recordLanded (db : Db) (landed : List (JsString × Nat)) : Command → List (JsString × Nat)
  | .storeSet key _ _ => (key, db.now) :: landed
  | _ => landed

/-- The store has executed the command of a lookup. -/
def Backed.lookedUp (b : Backed) (i : Nat) (executed : Executed) (db : Db) : Backed :=
  { b with
    db := db
    lookups := Function.update b.lookups i (some executed) }

/-- The store has executed the command of a search. -/
def Backed.worked (b : Backed) (n : Nat) (command : Command) (executed : Executed) (db : Db) :
    Backed :=
  { b with
    db := db
    works := Function.update b.works n (some executed)
    landed := Function.update b.landed n (recordLanded b.db (b.landed n) command) }

variable (settings : Settings) (platform : Platform) (leases honest : Bool)

def backedStep (b : Backed) : BackedEvent → Option Backed
  | .process event =>
    (step settings platform leases honest b.process (b.answered event)).map fun p =>
      { b.delivered event with process := p }
  | .executeLookup i => b.process.calls[i]?.bind fun c => c.lookup.pending.bind fun command =>
    if (b.lookups i).isSome then none
    else (execute b.db command).map fun (executed, db) => b.lookedUp i executed db
  | .executeWork n => b.process.entries[n]?.bind fun e => e.promise.pending.bind fun command =>
    if (b.works n).isSome then none
    else (execute b.db command).map fun (executed, db) => b.worked n command executed db
  | .elapse ms => some { b with db := b.db.elapse ms }
  | .sweep key => some { b with db := b.db.sweep key }

variable {settings platform leases honest}
variable {b b' : Backed} {event : Event} {i n : Nat}

theorem worked_landed {m : Nat} {command : Command} {executed : Executed} {db : Db} (h : n ≠ m) :
    (b.worked m command executed db).landed n = b.landed n :=
  Function.update_of_ne h ..

theorem worked_works {m : Nat} {command : Command} {executed : Executed} {db : Db} (h : n ≠ m) :
    (b.worked m command executed db).works n = b.works n :=
  Function.update_of_ne h ..

@[simp] theorem worked_landed_self {command : Command} {executed : Executed} {db : Db} :
    (b.worked n command executed db).landed n = recordLanded b.db (b.landed n) command :=
  Function.update_self ..

@[simp] theorem worked_works_self {command : Command} {executed : Executed} {db : Db} :
    (b.worked n command executed db).works n = some executed :=
  Function.update_self ..

theorem backedStep_process (h : backedStep settings platform leases honest b (.process event) =
      some b') : ∃ p, step settings platform leases honest b.process (b.answered event) = some p ∧
      b' = { b.delivered event with process := p } := by
  obtain ⟨p, hp, rfl⟩ := Option.map_eq_some_iff.mp h
  exact ⟨p, hp, rfl⟩

theorem backedStep_executeLookup
    (h : backedStep settings platform leases honest b (.executeLookup i) = some b') :
    ∃ c command executed db, b.process.calls[i]? = some c ∧ c.lookup.pending = some command ∧
      b.lookups i = none ∧ execute b.db command = some (executed, db) ∧
      b' = b.lookedUp i executed db := by
  obtain ⟨c, hi, hc⟩ := Option.bind_eq_some_iff.mp h
  obtain ⟨command, hpending, hr⟩ := Option.bind_eq_some_iff.mp hc
  split at hr
  · cases hr
  · rename_i hnone
    obtain ⟨⟨executed, db⟩, hexec, rfl⟩ := Option.map_eq_some_iff.mp hr
    exact ⟨c, command, executed, db, hi, hpending, by simpa using hnone, hexec, rfl⟩

theorem backedStep_executeWork
    (h : backedStep settings platform leases honest b (.executeWork n) = some b') :
    ∃ e command executed db, b.process.entries[n]? = some e ∧
      e.promise.pending = some command ∧ b.works n = none ∧
      execute b.db command = some (executed, db) ∧
      b' = b.worked n command executed db := by
  obtain ⟨e, hn, he⟩ := Option.bind_eq_some_iff.mp h
  obtain ⟨command, hpending, hr⟩ := Option.bind_eq_some_iff.mp he
  split at hr
  · cases hr
  · rename_i hnone
    obtain ⟨⟨executed, db⟩, hexec, rfl⟩ := Option.map_eq_some_iff.mp hr
    exact ⟨e, command, executed, db, hn, hpending, by simpa using hnone, hexec, rfl⟩

end NewsApi.Services
