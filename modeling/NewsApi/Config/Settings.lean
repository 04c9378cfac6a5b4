import NewsApi.Text.JsString

/-! # Settings and platform

The settings are read from an environment that does not change, so they are
taken as resolved; the bounds that the resolvers guarantee are fields. -/
namespace NewsApi.Config
open NewsApi.Text

def DEFAULT_ARTICLE_COUNT : Nat := 10
def MAX_ARTICLE_COUNT : Nat := 100
def DEFAULT_ARTICLE_PAGE : Nat := 1
def MAX_ARTICLE_PAGE : Nat := 100
def MAX_SEARCH_TEXT_LENGTH : Nat := 256
def MAX_RETRY_AFTER_SECONDS : Nat := 24 * 60 * 60
def MAX_RETRY_DELAY_MS : Nat := 2000

/-- Library functions that the service calls and that are not its own. -/
structure Platform where
  /-- `createHash("sha256").update(s).digest("hex")` -/
  sha256Hex : JsString → JsString
  /-- `Date.parse`, `none` for `NaN` -/
  dateParse : JsString → Option Int

structure Settings where
  gnewsApiKey : Option JsString
  /-- `UPSTREAM_TOTAL_TIMEOUT_MS` -/
  upstreamTotalTimeoutMs : Nat
  /-- `UPSTREAM_CIRCUIT_FAILURE_THRESHOLD` -/
  failureThreshold : Nat
  /-- `UPSTREAM_CIRCUIT_COOLDOWN_MS` -/
  cooldownMs : Nat
  retryAttempts : Nat
  retryBaseDelayMs : Nat
  cacheLeaseTtlMs : Nat
  cacheLeaseWaitMs : Nat
  cacheLeasePollMs : Nat
  /-- `STALE_CACHE_TTL_SEC` -/
  staleCacheTtlSec : Nat
  failureThreshold_pos : 0 < failureThreshold
  cooldownMs_pos : 0 < cooldownMs
  cacheLeaseTtlMs_pos : 0 < cacheLeaseTtlMs
  cacheLeaseWaitMs_pos : 0 < cacheLeaseWaitMs
  cacheLeasePollMs_pos : 0 < cacheLeasePollMs

/-- For sample runs. -/
def Platform.plain : Platform where
  sha256Hex s := s
  dateParse _ := none

/-- The defaults, without a provider key. -/
def Settings.default : Settings where
  gnewsApiKey := none
  upstreamTotalTimeoutMs := 60000
  failureThreshold := 3
  cooldownMs := 30000
  retryAttempts := 1
  retryBaseDelayMs := 100
  cacheLeaseTtlMs := 5000
  cacheLeaseWaitMs := 750
  cacheLeasePollMs := 50
  staleCacheTtlSec := 3600
  failureThreshold_pos := by decide
  cooldownMs_pos := by decide
  cacheLeaseTtlMs_pos := by decide
  cacheLeaseWaitMs_pos := by decide
  cacheLeasePollMs_pos := by decide

end NewsApi.Config
