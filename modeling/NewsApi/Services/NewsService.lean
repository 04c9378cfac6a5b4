import NewsApi.Cache.Coordinator
import NewsApi.Providers.GNewsProvider
import NewsApi.Services.SearchKey

/-! # The news service's searches

The programs of one search: the cache lookup that every call makes, and the
upstream work that the calls for one key share. The two cache entries of a key
are read and written alike, so their functions are one with parameters. Every
failure of the cache is swallowed where it happens. -/
namespace NewsApi.Services
open NewsApi.Async NewsApi.Text NewsApi.Types NewsApi.Config NewsApi.Errors NewsApi.Cache
open NewsApi.Runtime NewsApi.Providers

inductive ArticleSearchCacheStatus where
  | hit
  | miss
  | coalesced
  | stale
  deriving DecidableEq

structure ArticleSearchResult where
  articles : ArticleList
  cache : ArticleSearchCacheStatus

/-- `getCacheStore()` -/
def cacheStore : CacheStore Command Reply where
  get key := await (command (.storeGet key))
  set key value ttlSec := await (command (.storeSet key value ttlSec))
  delete key := await (command (.storeDelete key))

def leaseStore : CacheLeaseStore Command Reply where
  tryAcquireLease key owner ttlMs := await (command (.tryAcquireLease key owner ttlMs))
  releaseLease key owner := await (command (.releaseLease key owner))

/-- The coordination of a search; its signal is the in-flight entry's. -/
def coordinatorRuntime (leases : Bool) : CoordinatorRuntime Command Reply where
  aborted := command (.aborted .client)
  dateNow := command .dateNow
  random := command .random
  randomUUID := command .randomUUID
  setTimeout delayMs := await (command (.sleep delayMs .client))
  startLeaseHeartbeat key owner ttlMs := command (.startHeartbeat key owner ttlMs)
  stopLeaseHeartbeat := command .stopHeartbeat
  leaseStore := if leases then some leaseStore else none

/-! ## Cache entries -/

/-- `err instanceof CacheCorruptionError` -/
def isCacheCorruptionError : JsError → Bool
  | .cacheCorruption _ => true
  | _ => false

def deleteCorruptCacheEntry (key : JsString) : Job Unit :=
  tryCatch (cacheStore.delete key) fun _ => pure ()

/-- Look an entry up; what it holds is labelled `cache`. -/
def readArticles (key : JsString) (cache : ArticleSearchCacheStatus) :
    Job (Option ArticleSearchResult) := withSpan do
  match ← AsyncM.attempt (cacheStore.get key) with
  | .error err =>
    if isCacheCorruptionError err then deleteCorruptCacheEntry key
    pure none
  | .ok none => pure none
  | .ok (some cached) =>
    match asArticleList cached with
    | none =>
      deleteCorruptCacheEntry key
      pure none
    | some articles => pure (some ⟨articles, cache⟩)

def readCachedArticles (cacheKey : JsString) : Job (Option ArticleSearchResult) :=
  readArticles cacheKey .hit

def readStaleCachedArticles (cacheKey : JsString) : Job (Option ArticleSearchResult) :=
  readArticles (staleCacheKey cacheKey) .stale

def writeArticles (key : JsString) (articles : ArticleList) (ttlSec : Nat) : Job Unit :=
  withSpan (tryCatch (cacheStore.set key articles.value ttlSec) fun _ => pure ())

variable (settings : Settings) (platform : Platform)

def writeCachedArticles (cacheKey : JsString) (articles : ArticleList) : Job Unit := do
  writeArticles cacheKey articles TTL_SEC
  writeArticles (staleCacheKey cacheKey) articles settings.staleCacheTtlSec

/-! ## Upstream work -/

/-- `try { articles = await newsProvider.search(…); throwIfAborted(signal) }` -/
def searchProvider (options : ArticleSearchOptions) : Job ArticleList := do
  let result ← AsyncM.attempt (search settings platform options)
  ask (.providerSettled result)
  let articles ← AsyncM.ofExcept result
  throwIfAborted .client
  pure articles

/-- The provider failed with `err`: serve the stale entry if there is one. -/
def staleFallback (cacheKey : JsString) (err : JsError) : Job ArticleSearchResult := withSpan do
  match ← readStaleCachedArticles cacheKey with
  | some stale => pure stale
  | none => throw err

def loadArticlesFromUpstream (options : ArticleSearchOptions) (cacheKey : JsString) :
    Job ArticleSearchResult := do
  match ← AsyncM.attempt (searchProvider settings platform options) with
  | .error err =>
    if (← ask (.aborted .client)) || isRequestAbortedError err then throw .requestAborted
    else staleFallback cacheKey err
  | .ok articles =>
    writeCachedArticles settings cacheKey articles
    pure ⟨articles, .miss⟩

def fetchArticlesFromUpstream (leases : Bool) (options : ArticleSearchOptions)
    (cacheKey : JsString) : Job ArticleSearchResult := do
  let coordinated ← coordinateCacheMiss (coordinatorRuntime leases) settings platform cacheKey
    (readCachedArticles cacheKey) (loadArticlesFromUpstream settings platform options cacheKey)
  if coordinated.source = .sharedCache then
    pure { coordinated.value with cache := .coalesced }
  else pure coordinated.value

/-! ## Calls -/

/-- `searchArticles` up to the look at the in-flight searches. -/
def lookupSearch (options : ArticleSearchOptions) : Job (Option ArticleSearchResult) := do
  throwIfAborted .client
  readCachedArticles (searchCacheKey options)

/-- `{ ...result, cache: result.cache === "miss" ? "coalesced" : result.cache }` for
a call that joined an existing search, and the result itself for its creator. -/
def callResult (existing : Bool) (result : ArticleSearchResult) : ArticleSearchResult :=
  if existing && result.cache == .miss then { result with cache := .coalesced } else result

end NewsApi.Services
