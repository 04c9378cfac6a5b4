import NewsApi.Config.Numbers
import NewsApi.Providers.Retry

/-! # A retried operation on its own

`withUpstreamRetries` over any commands that answer what it asks for, and the
commands of one retry loop whose operation is a single action of its caller. -/
namespace NewsApi.Providers
open NewsApi.Async NewsApi.Text NewsApi.Config NewsApi.Errors NewsApi.Runtime

/-- `raw` is `UPSTREAM_RETRY_ATTEMPTS`. -/
def retryAttempts (raw : Option JsString) : Nat := resolveNonNegativeIntegerEnv raw 1 3

theorem retryAttempts_le (raw : Option JsString) : retryAttempts raw ≤ 3 := by
  unfold retryAttempts resolveNonNegativeIntegerEnv
  split
  · split
    · decide
    · split
      · exact Nat.min_le_right _ _
      · decide
  · split
    · exact Nat.min_le_right _ _
    · decide

structure RetryRuntime (C : Type) (R : C → Type) where
  /-- `signal?.aborted` -/
  aborted : Prog C R Bool
  random : Prog C R Rat
  /-- a timer that rejects when the signal aborts -/
  setTimeout (delayMs : Nat) : AsyncM JsError C R Unit
  /-- the turn an await of an already settled promise takes -/
  tick : Prog C R Unit

namespace RetryRuntime
variable {C : Type} {R : C → Type} {T : Type} (rt : RetryRuntime C R)

def throwIfAborted : AsyncM JsError C R Unit := do
  if (← liftM rt.aborted) then throw .requestAborted

def sleep (delayMs : Nat) : AsyncM JsError C R Unit := do
  rt.throwIfAborted
  rt.setTimeout delayMs

def withSpan {α : Type} (operation : AsyncM JsError C R α) : AsyncM JsError C R α := do
  let result ← AsyncM.attempt operation
  liftM rt.tick
  AsyncM.ofExcept result

def afterFailedAttempt (settings : Settings) (attempt : Nat) (error : JsError) :
    AsyncM JsError C R (Nat ⊕ T) := do
  if (← liftM rt.aborted) || isRequestAbortedError error then throw .requestAborted
  else if settings.retryAttempts ≤ attempt || !isRetryableUpstreamError error then throw error
  else
    let random ← liftM rt.random
    rt.withSpan (rt.sleep (retryDelayMs settings attempt random))
    pure (.inl (attempt + 1))

def attemptOnce (settings : Settings) (operation : AsyncM JsError C R T) (attempt : Nat) :
    AsyncM JsError C R (Nat ⊕ T) :=
  tryCatch
    (do
      rt.throwIfAborted
      let value ← operation
      pure (.inr value))
    (rt.afterFailedAttempt settings attempt)

def withUpstreamRetries (settings : Settings) (operation : AsyncM JsError C R T) :
    AsyncM JsError C R T :=
  AsyncM.loop 0 (rt.attemptOnce settings operation)

end RetryRuntime

/-- The retries of a running search. -/
def searchRuntime (signal : Signal) : RetryRuntime Command Reply where
  aborted := command (.aborted signal)
  random := command .random
  setTimeout delayMs := await (command (.sleep delayMs signal))
  tick := command .tick

theorem withUpstreamRetries_eq {T : Type} (settings : Settings) (operation : Job T)
    (signal : Signal) : withUpstreamRetries settings operation signal =
      (searchRuntime signal).withUpstreamRetries settings operation := rfl

inductive RetryCommand where
  | aborted
  | random
  | operation
  | setTimeout (delayMs : Nat)
  | tick

abbrev RetryReply (T : Type) : RetryCommand → Type
  | .aborted => Bool
  | .random => Rat
  | .operation => Except JsError T
  | .setTimeout _ => Except JsError Unit
  | .tick => Unit

section
variable (T : Type)

def retryCommand (c : RetryCommand) : Prog RetryCommand (RetryReply T) (RetryReply T c) :=
  Prog.command c

def retryRuntime : RetryRuntime RetryCommand (RetryReply T) where
  aborted := retryCommand T .aborted
  random := retryCommand T .random
  setTimeout delayMs := ExceptT.mk (retryCommand T (.setTimeout delayMs))
  tick := retryCommand T .tick

def operation : AsyncM JsError RetryCommand (RetryReply T) T :=
  ExceptT.mk (retryCommand T .operation)

/-- The retry loop of one operation. -/
def retrying (settings : Settings) : Prog RetryCommand (RetryReply T) (Except JsError T) :=
  ((retryRuntime T).withUpstreamRetries settings (operation T)).run

end

end NewsApi.Providers
