import NewsApi.Providers.Retry

/-! # The GNews provider -/
namespace NewsApi.Providers
open NewsApi.Async NewsApi.Text NewsApi.Types NewsApi.Config NewsApi.Errors NewsApi.Http
open NewsApi.Runtime

def invalidPayloadError : JsError :=
  .http {
    statusCode := 502
    message := "Invalid response from news provider"
    code := "invalid_provider_payload"
    retryAfter := none }

def normalizeArticles (data : Json) : Except JsError ArticleList :=
  match data.get (js "articles") with
  | none => .error invalidPayloadError
  | some articles =>
    match asArticleList articles with
    | none => .error invalidPayloadError
    | some articles =>
      if MAX_ARTICLE_COUNT < articles.length then .error invalidPayloadError else .ok articles

def toProviderParams (settings : Settings) (options : ArticleSearchOptions) : ProviderParams where
  q := options.query
  max := options.count
  page := options.page
  token := settings.gnewsApiKey
  lang := options.lang
  country := options.country
  «from» := options.from
  «to» := options.to
  sortby := options.sortBy

def mapAxiosError (platform : Platform) (now : Nat) (error : AxiosError) : JsError :=
  let retryAfter := error.response.bind fun response =>
    retryAfterFromHeaders platform response.2 now
  if error.status = some 429 then
    .http {
      statusCode := 429
      message := "Upstream news service rate limit exceeded"
      code := "upstream_rate_limited"
      retryAfter := retryAfter }
  else if error.status = some 503 then
    .http {
      statusCode := 503
      message := "Upstream news service temporarily unavailable"
      code := "upstream_unavailable"
      retryAfter := retryAfter }
  else
    .http {
      statusCode := 502
      message := "Upstream news service unavailable"
      code := "upstream_unavailable"
      retryAfter := none }

variable (settings : Settings) (platform : Platform)

/-- `new AxiosError("upstream total timeout", "ETIMEDOUT")` -/
def timeoutError : AxiosError where
  code := some "ETIMEDOUT"
  response := none

def axiosGet (options : ArticleSearchOptions) : Job Json :=
  await (command (.axiosGet (toProviderParams settings options)))

/-- The upstream work of an admitted search. -/
def requestArticles (options : ArticleSearchOptions) : Job ArticleList := do
  let data ← withUpstreamRetries settings (axiosGet settings options) .request
  throwIfAborted .request
  let articles ← AsyncM.ofExcept (normalizeArticles data)
  ask .closeCircuit
  pure articles

/-- `catch (err)` of the upstream work. -/
def settleFailure (circuitState : CircuitRequestState) (err : JsError) : Job ArticleList := do
  let deadlineExceeded :=
    (← ask (.aborted .deadline)) && !(← ask (.aborted .client)) && !(← ask (.aborted .shutdown))
  if deadlineExceeded then
    ask .recordProviderFailure
    throw (mapAxiosError platform (← ask .dateNow) timeoutError)
  else if (← ask (.aborted .request)) || isRequestAbortedError err then
    ask (.recordCanceledProbe circuitState)
    throw .requestAborted
  else
    if shouldRecordProviderFailure err then ask .recordProviderFailure
    else if circuitState = .halfOpen then ask .closeCircuit
    match err with
    | .axios error => throw (mapAxiosError platform (← ask .dateNow) error)
    | err => throw err

def search (options : ArticleSearchOptions) : Job ArticleList := do
  ask (.createAbortDeadline settings.upstreamTotalTimeoutMs)
  AsyncM.withFinally
    (do
      throwIfAborted .request
      let circuitState ← withSpan do
        AsyncM.ofExcept (← ask .assertCircuitAllowsRequest)
      withSpan (tryCatch (requestArticles settings options)
        (settleFailure platform circuitState)))
    (ask .cancelDeadline)

end NewsApi.Providers
