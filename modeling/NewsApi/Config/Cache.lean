import NewsApi.Config.Numbers

/-! # Settings of the cache lease -/
namespace NewsApi.Config
open NewsApi.Text

def DEFAULT_CACHE_LEASE_TTL_MS : Nat := 5000
def MAX_CACHE_LEASE_TTL_MS : Nat := 30000
def DEFAULT_CACHE_LEASE_WAIT_MS : Nat := 750
def MAX_CACHE_LEASE_WAIT_MS : Nat := 5000
def DEFAULT_CACHE_LEASE_POLL_MS : Nat := 50
def MAX_CACHE_LEASE_POLL_MS : Nat := 500
def MAX_CACHE_LEASE_HEARTBEAT_MS : Nat := 15000

def resolveCacheLeaseTtlMs (rawValue : Option JsString) : Nat :=
  resolvePositiveIntegerEnv rawValue DEFAULT_CACHE_LEASE_TTL_MS MAX_CACHE_LEASE_TTL_MS

def resolveCacheLeaseWaitMs (rawValue : Option JsString) : Nat :=
  resolvePositiveIntegerEnv rawValue DEFAULT_CACHE_LEASE_WAIT_MS MAX_CACHE_LEASE_WAIT_MS

def resolveCacheLeasePollMs (rawValue : Option JsString) : Nat :=
  resolvePositiveIntegerEnv rawValue DEFAULT_CACHE_LEASE_POLL_MS MAX_CACHE_LEASE_POLL_MS

def resolveCacheLeaseHeartbeatMs (rawValue : Option JsString) (leaseTtlMs : Nat) : Nat :=
  let maximum := min MAX_CACHE_LEASE_HEARTBEAT_MS (max 1 (leaseTtlMs / 2))
  let fallback := max 1 (leaseTtlMs / 2)
  min (resolvePositiveIntegerEnv rawValue fallback maximum) maximum

theorem resolvePositiveIntegerEnv_pos {fallback : Nat} (h : 0 < fallback)
    (raw : Option JsString) (maximum : Nat) :
    0 < resolvePositiveIntegerEnv raw fallback maximum := by
  unfold resolvePositiveIntegerEnv
  dsimp only
  split
  · assumption
  · exact h

/-- The heartbeat beats at least twice in the time of a lease. -/
theorem resolveCacheLeaseHeartbeatMs_bounds (raw : Option JsString) {leaseTtlMs : Nat}
    (h : 2 ≤ leaseTtlMs) : 0 < resolveCacheLeaseHeartbeatMs raw leaseTtlMs ∧
      2 * resolveCacheLeaseHeartbeatMs raw leaseTtlMs ≤ leaseTtlMs := by
  have hfallback : 0 < max 1 (leaseTtlMs / 2) := by omega
  have hpos := resolvePositiveIntegerEnv_pos hfallback raw
    (min MAX_CACHE_LEASE_HEARTBEAT_MS (max 1 (leaseTtlMs / 2)))
  unfold resolveCacheLeaseHeartbeatMs MAX_CACHE_LEASE_HEARTBEAT_MS at *
  dsimp only
  omega

end NewsApi.Config
