import Mathlib.Algebra.Group.Nat.Defs
import NewsApi.Config.Settings
import NewsApi.Runtime.Commands
import NewsApi.Utils.Coercion

/-! # Retries of the provider call -/
namespace NewsApi.Providers
open NewsApi.Async NewsApi.Config NewsApi.Errors NewsApi.Runtime NewsApi.Utils

def RETRYABLE_STATUS_CODES : List Nat := [408, 425, 500, 502, 503, 504]

def RETRYABLE_ERROR_CODES : List String :=
  ["ECONNABORTED", "ECONNRESET", "EAI_AGAIN", "EHOSTUNREACH", "ENETUNREACH", "ETIMEDOUT",
    "ERR_NETWORK"]

def isRetryableUpstreamError : JsError → Bool
  | .axios error =>
    match error.status with
    | some status => RETRYABLE_STATUS_CODES.contains status
    | none =>
      match error.code with
      | some code => RETRYABLE_ERROR_CODES.contains code
      | none => false
  | _ => false

def retryDelayMs (settings : Settings) (attempt : Nat) (random : Rat) : Nat :=
  jittered (min (settings.retryBaseDelayMs * 2 ^ attempt) MAX_RETRY_DELAY_MS) random

/-- `catch (error)` of one attempt: abort, give up, or sleep and go on. -/
def afterFailedAttempt {T : Type} (settings : Settings) (signal : Signal) (attempt : Nat)
    (error : JsError) : Job (Nat ⊕ T) := do
  if (← ask (.aborted signal)) || isRequestAbortedError error then throw .requestAborted
  else if settings.retryAttempts ≤ attempt || !isRetryableUpstreamError error then throw error
  else
    let random ← ask .random
    withSpan (sleep (retryDelayMs settings attempt random) signal)
    pure (.inl (attempt + 1))

def withUpstreamRetries {T : Type} (settings : Settings) (operation : Job T) (signal : Signal) :
    Job T :=
  AsyncM.loop 0 fun attempt =>
    tryCatch
      (do
        throwIfAborted signal
        let value ← operation
        pure (.inr value))
      (afterFailedAttempt settings signal attempt)

end NewsApi.Providers
