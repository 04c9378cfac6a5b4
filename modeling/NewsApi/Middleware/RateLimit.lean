import NewsApi.Errors
import NewsApi.Http.RetryAfter

/-! # The rate limiter

The counting is the library's. What is modelled is which requests are counted
and what becomes of the library's verdict. -/
namespace NewsApi.Middleware
open NewsApi.Text NewsApi.Errors NewsApi.Http

/-- The library's verdict on a request. -/
inductive LimiterVerdict where
  | within
  /-- with the seconds until the window is over -/
  | exceeded (resetSeconds : Nat)
  | storeError (error : JsError)

/-- What the environment says: `NODE_ENV` or `VITEST`, and `DISABLE_RATE_LIMIT`. -/
structure LimiterSettings where
  testing : Bool
  disabled : Bool

/-- `path` is `req.path`. -/
def skipRateLimit (settings : LimiterSettings) (path : JsString) : Bool :=
  settings.testing || settings.disabled || path == js "/health" || path == js "/ready" ||
    path == js "/openapi.yaml" || path == js "/metrics"

def rateLimitExceeded : HttpError where
  statusCode := 429
  message := "Too many requests, please try again later."
  code := "rate_limit_exceeded"
  retryAfter := none

def rateLimitStoreUnavailable : HttpError where
  statusCode := 503
  message := "Rate limit store unavailable"
  code := "rate_limit_store_unavailable"
  retryAfter := none

/-- The argument with which the library calls back. -/
def limiter (settings : LimiterSettings) (path : JsString) (verdict : LimiterVerdict) :
    Option JsError :=
  if skipRateLimit settings path then none
  else match verdict with
    | .within => none
    | .exceeded _ => some (.http rateLimitExceeded)
    | .storeError error => some error

/-- What the library has set on the response by then, besides the `RateLimit`
headers: it announces the delay itself, before it calls the handler. -/
def limiterHeaders (settings : LimiterSettings) (path : JsString) (verdict : LimiterVerdict) :
    List (String × JsString) :=
  if skipRateLimit settings path then []
  else match verdict with
    | .exceeded resetSeconds => [("Retry-After", decimal resetSeconds)]
    | _ => []

/-- `next()` or `next(error)`: what is not the handler's own error is the store's. -/
def apiRateLimiter : Option JsError → Except HttpError Unit
  | none => .ok ()
  | some (.http error) =>
    if error.code = "rate_limit_exceeded" then .error error else .error rateLimitStoreUnavailable
  | some _ => .error rateLimitStoreUnavailable

/-- `ping` is `none` where there is no client. -/
def checkRateLimitStoreReadiness (required : Bool) (ping : Option (Except JsError JsString)) :
    Bool :=
  if !required then true
  else match ping with
    | some (.ok reply) => reply == js "PONG"
    | _ => false

/-- `isRateLimitStoreReady()` -/
def isRateLimitStoreReady (settings : LimiterSettings) (redisUrl : Option JsString)
    (ping : Option (Except JsError JsString)) : Bool :=
  checkRateLimitStoreReadiness
    (!settings.disabled && redisUrl.any fun url => !(trim url).isEmpty) ping

end NewsApi.Middleware
