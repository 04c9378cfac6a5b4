import NewsApi.Cache.Coordinator
import NewsApi.Services.SearchKey

/-! # The key families of the shared Redis

Fresh entries, stale entries, leases and rate-limit counters live in one Redis.
Their keys never meet, whatever text the searches carry. -/
namespace NewsApi.Services
open NewsApi.Text NewsApi.Types NewsApi.Cache NewsApi.Config

def REDIS_KEY_PREFIX : JsString := js "news-api:rate-limit:"

/-- The key of a client's counter in the rate limiter's store. -/
def rateLimitKey (clientKey : JsString) : JsString := REDIS_KEY_PREFIX ++ clientKey

theorem leaseKey_ne_rateLimitKey (platform : Platform) (k clientKey : JsString) :
    leaseKey platform k ≠ rateLimitKey clientKey := by
  intro h
  -- the prefixes differ after `news-api:`
  have hfirst := congrArg (List.take 10) h
  rw [leaseKey, rateLimitKey, List.take_append_of_le_length (by decide),
    List.take_append_of_le_length (by decide)] at hfirst
  exact absurd hfirst (by decide)

theorem leaseKey_injective {platform : Platform} {k l : JsString}
    (hsha : platform.sha256Hex k = platform.sha256Hex l → k = l)
    (h : leaseKey platform k = leaseKey platform l) : k = l :=
  hsha (List.append_cancel_left h)

/-- Every key belongs to one family and, within the first three, to one search. -/
structure KeysApart (platform : Platform) : Prop where
  search : ∀ o p, searchCacheKey o = searchCacheKey p ↔ o = p
  stale : ∀ o p, staleCacheKey (searchCacheKey o) = staleCacheKey (searchCacheKey p) ↔ o = p
  fresh_stale : ∀ o p, searchCacheKey o ≠ staleCacheKey (searchCacheKey p)
  entry_lease : ∀ o k, searchCacheKey o ≠ leaseKey platform k ∧
    staleCacheKey (searchCacheKey o) ≠ leaseKey platform k
  entry_rateLimit : ∀ o clientKey, searchCacheKey o ≠ rateLimitKey clientKey ∧
    staleCacheKey (searchCacheKey o) ≠ rateLimitKey clientKey
  lease_rateLimit : ∀ k clientKey, leaseKey platform k ≠ rateLimitKey clientKey
  /-- where the fingerprints do not collide -/
  lease : ∀ k l, (platform.sha256Hex k = platform.sha256Hex l → k = l) →
    leaseKey platform k = leaseKey platform l → k = l

theorem keys_apart (platform : Platform) : KeysApart platform where
  search _ _ := ⟨searchCacheKey_injective, congrArg searchCacheKey⟩
  stale _ _ := ⟨searchCacheKey_injective ∘ staleCacheKey_injective,
    congrArg (staleCacheKey ∘ searchCacheKey)⟩
  fresh_stale o p := (staleCacheKey_ne (searchCacheKey p) o).symm
  entry_lease o k := searchCacheKey_ne_of_head (c := 0x6E) rfl (by decide) o
  entry_rateLimit o clientKey := searchCacheKey_ne_of_head (c := 0x6E) rfl (by decide) o
  lease_rateLimit := leaseKey_ne_rateLimitKey platform
  lease _ _ := leaseKey_injective

end NewsApi.Services
