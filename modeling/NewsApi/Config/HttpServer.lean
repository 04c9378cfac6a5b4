import NewsApi.Config.Cache

/-! # Settings of the HTTP server -/
namespace NewsApi.Config
open NewsApi.Text NewsApi.Http

def DEFAULT_SERVER_REQUEST_TIMEOUT_MS : Nat := 75000
def MAX_SERVER_REQUEST_TIMEOUT_MS : Nat := 120000
def DEFAULT_SERVER_HEADERS_TIMEOUT_MS : Nat := 10000
def MAX_SERVER_HEADERS_TIMEOUT_MS : Nat := 60000
def DEFAULT_SERVER_TRANSPORT_LOG_BURST : Nat := 10
def MAX_SERVER_TRANSPORT_LOG_BURST : Nat := 100
def DEFAULT_SERVER_TRANSPORT_LOG_WINDOW_MS : Nat := 60000
def MAX_SERVER_TRANSPORT_LOG_WINDOW_MS : Nat := 300000

def resolveServerRequestTimeoutMs (rawValue : Option JsString) : Nat :=
  resolvePositiveIntegerEnv rawValue DEFAULT_SERVER_REQUEST_TIMEOUT_MS MAX_SERVER_REQUEST_TIMEOUT_MS

def resolveServerHeadersTimeoutMs (rawValue : Option JsString) (requestTimeoutMs : Nat) : Nat :=
  let maximum := min MAX_SERVER_HEADERS_TIMEOUT_MS requestTimeoutMs
  let fallback := min DEFAULT_SERVER_HEADERS_TIMEOUT_MS maximum
  resolvePositiveIntegerEnv rawValue fallback maximum

def resolveServerTransportLogBurst (rawValue : Option JsString) : Nat :=
  resolvePositiveIntegerEnv rawValue DEFAULT_SERVER_TRANSPORT_LOG_BURST
    MAX_SERVER_TRANSPORT_LOG_BURST

def resolveServerTransportLogWindowMs (rawValue : Option JsString) : Nat :=
  resolvePositiveIntegerEnv rawValue DEFAULT_SERVER_TRANSPORT_LOG_WINDOW_MS
    MAX_SERVER_TRANSPORT_LOG_WINDOW_MS

/-- The budget of transport logs: at least one, in windows of at least a millisecond. -/
structure HttpServerLogSettings where
  burst : Nat
  windowMs : Nat
  burst_pos : 1 ≤ burst
  windowMs_pos : 1 ≤ windowMs

def resolveHttpServerLogSettings (rawBurst rawWindowMs : Option JsString) :
    HttpServerLogSettings where
  burst := resolveServerTransportLogBurst rawBurst
  windowMs := resolveServerTransportLogWindowMs rawWindowMs
  burst_pos := resolvePositiveIntegerEnv_pos (by decide) rawBurst _
  windowMs_pos := resolvePositiveIntegerEnv_pos (by decide) rawWindowMs _

end NewsApi.Config
