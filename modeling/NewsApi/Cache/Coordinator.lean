import NewsApi.Cache.MemoryStore
import NewsApi.Config.Settings
import NewsApi.Utils.Coercion

/-! # Cross-replica cache-miss coordination

One replica at a time loads a cold key while it holds a lease; the others poll
the cache. Every failure of the lease commands falls back to loading. The
program is generic in the value and in the host it runs on. -/
namespace NewsApi.Cache
open NewsApi.Async NewsApi.Text NewsApi.Errors NewsApi.Config

def LEASE_KEY_PREFIX : JsString := js "news-api:cache-lease:"

def leaseKey (platform : Platform) (cacheKey : JsString) : JsString :=
  LEASE_KEY_PREFIX ++ platform.sha256Hex cacheKey

inductive Source where
  | upstream
  | sharedCache
  | bypassed
  deriving DecidableEq

structure CacheMissCoordinationResult (T : Type) where
  value : T
  source : Source

variable {C : Type} {R : C → Type} {T : Type}

/-- What a coordination reaches outside itself: its abort signal, the clock,
timers, and the lease commands of its store. The heartbeat renews the lease
from its own timer; a coordination only starts and stops it. -/
structure CoordinatorRuntime (C : Type) (R : C → Type) where
  /-- `options.signal?.aborted` -/
  aborted : Prog C R Bool
  dateNow : Prog C R Nat
  random : Prog C R Rat
  randomUUID : Prog C R JsString
  /-- the promise of `sleep`: a timer that rejects when the signal aborts -/
  setTimeout (delayMs : Nat) : AsyncM JsError C R Unit
  startLeaseHeartbeat (key owner : JsString) (ttlMs : Nat) : Prog C R Unit
  stopLeaseHeartbeat : Prog C R Unit
  /-- `getCacheLeaseStore(options.store)` -/
  leaseStore : Option (CacheLeaseStore C R)

/-- `Math.max(1, Math.round(pollMs * (0.5 + random)))` -/
def waitDelayMs (pollMs : Nat) (random : Rat) : Nat := Utils.jittered pollMs random

section
variable (rt : CoordinatorRuntime C R)

def throwIfAborted : AsyncM JsError C R Unit := do
  if (← liftM rt.aborted) then throw .requestAborted

def sleep (delayMs : Nat) : AsyncM JsError C R Unit := do
  throwIfAborted rt
  rt.setTimeout delayMs

/-- `try { … await action …; throwIfAborted } catch`: once the signal has been
aborted the abort is thrown, whatever the error was; `none` is a failure. -/
def attemptUnlessAborted {α : Type} (action : AsyncM JsError C R α) :
    AsyncM JsError C R (Option α) :=
  tryCatch
    (do
      let value ← action
      throwIfAborted rt
      pure (some value))
    fun _ => do
      throwIfAborted rt
      pure none

def loadWithoutCoordination (load : AsyncM JsError C R T) (source : Source) :
    AsyncM JsError C R (CacheMissCoordinationResult T) := do
  let value ← load
  pure ⟨value, source⟩

def releaseLease (store : CacheLeaseStore C R) (key owner : JsString) : AsyncM JsError C R Unit :=
  tryCatch (store.releaseLease key owner) fun _ => pure ()

/-- `none`: the command failed and the caller loads without a lease. -/
def acquireLease (store : CacheLeaseStore C R) (key owner : JsString) (ttlMs : Nat) :
    AsyncM JsError C R (Option Bool) :=
  attemptUnlessAborted rt (store.tryAcquireLease key owner ttlMs)

/-- The cache read inside the lease; a failed read counts as a miss. -/
def recheckFresh (readFresh : AsyncM JsError C R (Option T)) : AsyncM JsError C R (Option T) :=
  Option.join <$> attemptUnlessAborted rt readFresh

/-- The cache read of a waiter; `none`: it failed and the caller loads. -/
def pollFresh (readFresh : AsyncM JsError C R (Option T)) :
    AsyncM JsError C R (Option (Option T)) :=
  attemptUnlessAborted rt readFresh

/-- The branch of a granted lease: recheck, load under the heartbeat, release. -/
def loadUnderLease (store : CacheLeaseStore C R) (key owner : JsString) (ttlMs : Nat)
    (readFresh : AsyncM JsError C R (Option T)) (load : AsyncM JsError C R T) :
    AsyncM JsError C R (CacheMissCoordinationResult T) :=
  AsyncM.withFinally
    (do
      match ← recheckFresh rt readFresh with
      | some cached => pure ⟨cached, .sharedCache⟩
      | none =>
        liftM (rt.startLeaseHeartbeat key owner ttlMs)
        AsyncM.withFinally
          (do
            let value ← load
            pure ⟨value, .upstream⟩)
          (liftM rt.stopLeaseHeartbeat))
    (releaseLease store key owner)

/-- One pass of `while (true)`. -/
def coordinationRound (settings : Settings) (store : CacheLeaseStore C R) (key owner : JsString)
    (waitDeadline : Nat) (readFresh : AsyncM JsError C R (Option T)) (load : AsyncM JsError C R T) :
    AsyncM JsError C R (Unit ⊕ CacheMissCoordinationResult T) := do
  throwIfAborted rt
  match ← acquireLease rt store key owner settings.cacheLeaseTtlMs with
  | none => .inr <$> loadWithoutCoordination load .upstream
  | some true =>
    .inr <$> loadUnderLease rt store key owner settings.cacheLeaseTtlMs readFresh load
  | some false =>
    match ← pollFresh rt readFresh with
    | none => .inr <$> loadWithoutCoordination load .upstream
    | some (some cached) => pure (.inr ⟨cached, .sharedCache⟩)
    | some none =>
      -- remainingMs = waitDeadline - now; remainingMs <= 0
      let now ← liftM rt.dateNow
      if waitDeadline ≤ now then .inr <$> loadWithoutCoordination load .upstream
      else
        let random ← liftM rt.random
        sleep rt (min (waitDelayMs settings.cacheLeasePollMs random) (waitDeadline - now))
        pure (.inl ())

/-- `options.store`, `signal`, clock and timers are `rt`'s. -/
def coordinateCacheMiss (settings : Settings) (platform : Platform) (cacheKey : JsString)
    (readFresh : AsyncM JsError C R (Option T)) (load : AsyncM JsError C R T) :
    AsyncM JsError C R (CacheMissCoordinationResult T) := do
  throwIfAborted rt
  match rt.leaseStore with
  | none => loadWithoutCoordination load .bypassed
  | some store =>
    let key := leaseKey platform cacheKey
    let owner ← liftM rt.randomUUID
    let startedAt ← liftM rt.dateNow
    let waitDeadline := startedAt + settings.cacheLeaseWaitMs
    AsyncM.loop () fun _ =>
      coordinationRound rt settings store key owner waitDeadline readFresh load

end

end NewsApi.Cache
