import NewsApi.Config.HttpServer
import NewsApi.Services.Backed

/-! # How the resolved settings relate

Some settings bound others: the heartbeat a lease, the headers timeout that of
the request, the stale entry the fresh one. -/
namespace NewsApi.Services
open NewsApi.Text NewsApi.Http NewsApi.Config NewsApi.Cache

/-- The variables of the environment, each unset or any string. -/
structure Env where
  cacheLeaseTtlMs : Option JsString
  cacheLeaseHeartbeatMs : Option JsString
  cacheLeaseWaitMs : Option JsString
  cacheLeasePollMs : Option JsString
  serverRequestTimeoutMs : Option JsString
  serverHeadersTimeoutMs : Option JsString
  staleCacheTtlSec : Option JsString

namespace Env

def leaseTtlMs (env : Env) : Nat := resolveCacheLeaseTtlMs env.cacheLeaseTtlMs

def leaseHeartbeatMs (env : Env) : Nat :=
  resolveCacheLeaseHeartbeatMs env.cacheLeaseHeartbeatMs env.leaseTtlMs

def leaseWaitMs (env : Env) : Nat := resolveCacheLeaseWaitMs env.cacheLeaseWaitMs

def leasePollMs (env : Env) : Nat := resolveCacheLeasePollMs env.cacheLeasePollMs

def requestTimeoutMs (env : Env) : Nat :=
  resolveServerRequestTimeoutMs env.serverRequestTimeoutMs

def headersTimeoutMs (env : Env) : Nat :=
  resolveServerHeadersTimeoutMs env.serverHeadersTimeoutMs env.requestTimeoutMs

def staleTtlSec (env : Env) : Nat := resolveStaleCacheTtlSec env.staleCacheTtlSec

end Env

/-- A positive safe integer, at most `maximum`. -/
structure Allowed (maximum value : Nat) : Prop where
  pos : 0 < value
  safe : value ≤ MAX_SAFE_INTEGER
  le : value ≤ maximum

/-! ## One setting -/

theorem resolveNonNegativeIntegerEnv_le {fallback maximum : Nat} (h : fallback ≤ maximum)
    (raw : Option JsString) : resolveNonNegativeIntegerEnv raw fallback maximum ≤ maximum := by
  unfold resolveNonNegativeIntegerEnv
  split
  · split
    · exact h
    · split
      · exact Nat.min_le_right _ _
      · exact h
  · split
    · exact Nat.min_le_right _ _
    · exact h

theorem resolvePositiveIntegerEnv_le {fallback maximum : Nat} (h : fallback ≤ maximum)
    (raw : Option JsString) : resolvePositiveIntegerEnv raw fallback maximum ≤ maximum := by
  unfold resolvePositiveIntegerEnv
  dsimp only
  split
  · exact resolveNonNegativeIntegerEnv_le h raw
  · exact h

/-- A fallback within the limits keeps every value within them. -/
theorem resolvePositiveIntegerEnv_allowed {fallback maximum bound : Nat} (raw : Option JsString)
    (hpos : 0 < fallback) (h : fallback ≤ maximum) (hbound : maximum ≤ bound)
    (hsafe : maximum ≤ MAX_SAFE_INTEGER) :
    Allowed bound (resolvePositiveIntegerEnv raw fallback maximum) where
  pos := resolvePositiveIntegerEnv_pos hpos raw maximum
  safe := (resolvePositiveIntegerEnv_le h raw).trans hsafe
  le := (resolvePositiveIntegerEnv_le h raw).trans hbound

/-! ## The settings in terms of others -/

/-- The headers timeout is clamped to the timeout of the request. -/
theorem resolveServerHeadersTimeoutMs_le (raw : Option JsString) (requestTimeoutMs : Nat) :
    resolveServerHeadersTimeoutMs raw requestTimeoutMs ≤
      min MAX_SERVER_HEADERS_TIMEOUT_MS requestTimeoutMs :=
  resolvePositiveIntegerEnv_le (Nat.min_le_right _ _) raw

theorem resolveServerHeadersTimeoutMs_allowed (raw : Option JsString) {requestTimeoutMs : Nat}
    (h : 0 < requestTimeoutMs) : Allowed MAX_SERVER_HEADERS_TIMEOUT_MS
      (resolveServerHeadersTimeoutMs raw requestTimeoutMs) := by
  have hmax : min MAX_SERVER_HEADERS_TIMEOUT_MS requestTimeoutMs ≤ MAX_SERVER_HEADERS_TIMEOUT_MS :=
    Nat.min_le_left _ _
  have hsafe : MAX_SERVER_HEADERS_TIMEOUT_MS ≤ MAX_SAFE_INTEGER := by decide
  refine resolvePositiveIntegerEnv_allowed raw ?_ (Nat.min_le_right _ _) hmax (hmax.trans hsafe)
  unfold DEFAULT_SERVER_HEADERS_TIMEOUT_MS MAX_SERVER_HEADERS_TIMEOUT_MS
  omega

/-- The heartbeat is clamped to half of the lease, and to one at least. -/
theorem resolveCacheLeaseHeartbeatMs_le (raw : Option JsString) (leaseTtlMs : Nat) :
    resolveCacheLeaseHeartbeatMs raw leaseTtlMs ≤
      min MAX_CACHE_LEASE_HEARTBEAT_MS (max 1 (leaseTtlMs / 2)) :=
  Nat.min_le_right _ _

theorem resolveCacheLeaseHeartbeatMs_allowed (raw : Option JsString) (leaseTtlMs : Nat) :
    Allowed MAX_CACHE_LEASE_HEARTBEAT_MS (resolveCacheLeaseHeartbeatMs raw leaseTtlMs) := by
  have hle := (resolveCacheLeaseHeartbeatMs_le raw leaseTtlMs).trans (Nat.min_le_left _ _)
  refine ⟨?_, hle.trans (by decide), hle⟩
  have hpos := @resolvePositiveIntegerEnv_pos (max 1 (leaseTtlMs / 2)) (by omega) raw
    (min MAX_CACHE_LEASE_HEARTBEAT_MS (max 1 (leaseTtlMs / 2)))
  unfold resolveCacheLeaseHeartbeatMs MAX_CACHE_LEASE_HEARTBEAT_MS at *
  dsimp only
  omega

theorem resolveStaleCacheTtlSec_allowed (raw : Option JsString) :
    Allowed 86400 (resolveStaleCacheTtlSec raw) := by
  have hconfigured := @resolvePositiveIntegerEnv_le 3600 86400 (by decide) raw
  have hle : resolveStaleCacheTtlSec raw ≤ 86400 := by
    unfold resolveStaleCacheTtlSec
    dsimp only
    split
    · exact hconfigured
    · decide
  exact ⟨Nat.zero_lt_of_lt (ttl_lt_stale raw), hle.trans (by decide), hle⟩

/-! ## All settings -/

/-- The relations between the settings of one environment, and their maxima. -/
structure SettingsOrder (env : Env) : Prop where
  heartbeat_half : 2 ≤ env.leaseTtlMs → 2 * env.leaseHeartbeatMs ≤ env.leaseTtlMs
  heartbeat_smallest : env.leaseTtlMs = 1 → env.leaseHeartbeatMs = 1
  headers_request : env.headersTimeoutMs ≤ env.requestTimeoutMs
  fresh_stale : TTL_SEC < env.staleTtlSec
  leaseTtl : Allowed MAX_CACHE_LEASE_TTL_MS env.leaseTtlMs
  heartbeat : Allowed MAX_CACHE_LEASE_HEARTBEAT_MS env.leaseHeartbeatMs
  wait : Allowed MAX_CACHE_LEASE_WAIT_MS env.leaseWaitMs
  poll : Allowed MAX_CACHE_LEASE_POLL_MS env.leasePollMs
  request : Allowed MAX_SERVER_REQUEST_TIMEOUT_MS env.requestTimeoutMs
  headers : Allowed MAX_SERVER_HEADERS_TIMEOUT_MS env.headersTimeoutMs
  stale : Allowed 86400 env.staleTtlSec

/-- **Resolved settings keep their order.** A lease of one millisecond has no
half, and its heartbeat is a millisecond too. -/
theorem settings_order (env : Env) : SettingsOrder env where
  heartbeat_half h := (resolveCacheLeaseHeartbeatMs_bounds _ h).2
  heartbeat_smallest h := by
    have hpos := (resolveCacheLeaseHeartbeatMs_allowed env.cacheLeaseHeartbeatMs env.leaseTtlMs).pos
    have hle := resolveCacheLeaseHeartbeatMs_le env.cacheLeaseHeartbeatMs env.leaseTtlMs
    rw [h] at hle hpos
    unfold Env.leaseHeartbeatMs
    rw [h]
    simp at hle
    omega
  headers_request := (resolveServerHeadersTimeoutMs_le _ _).trans (Nat.min_le_right _ _)
  fresh_stale := ttl_lt_stale _
  leaseTtl := resolvePositiveIntegerEnv_allowed _ (by decide) (by decide) le_rfl (by decide)
  heartbeat := resolveCacheLeaseHeartbeatMs_allowed _ _
  wait := resolvePositiveIntegerEnv_allowed _ (by decide) (by decide) le_rfl (by decide)
  poll := resolvePositiveIntegerEnv_allowed _ (by decide) (by decide) le_rfl (by decide)
  request := resolvePositiveIntegerEnv_allowed _ (by decide) (by decide) le_rfl (by decide)
  headers := resolveServerHeadersTimeoutMs_allowed _ (resolvePositiveIntegerEnv_pos (by decide) _ _)
  stale := resolveStaleCacheTtlSec_allowed _

/-- `CACHE_LEASE_TTL_MS=1` -/
theorem heartbeat_above_half :
    ¬∀ env : Env, 2 * env.leaseHeartbeatMs ≤ env.leaseTtlMs := by
  intro hall
  have hbeat := hall ⟨some (js "1"), none, none, none, none, none, none⟩
  revert hbeat
  decide +kernel

end NewsApi.Services
