/-! # The textbook circuit breaker

Closed it counts failures in a row, open it turns calls away until a cooldown
is over, and then the next call is a probe that decides what comes next. Calls
do not overlap here: a call is one transition, from its start to its end. -/
namespace NewsApi.Patterns

/-- How a call came out. -/
inductive Outcome where
  | success
  /-- a failure that says nothing good about the other side -/
  | transient
  /-- a failure that shows that the other side answers -/
  | permanent
  | cancelled
  deriving DecidableEq

inductive CircuitBreaker where
  | closed (failures : Nat)
  | opened (since : Nat)
  deriving DecidableEq

namespace CircuitBreaker
variable (threshold cooldown : Nat)

/-- Whether a call that starts now goes through. -/
def admits : CircuitBreaker → Nat → Bool
  | .closed _, _ => true
  | .opened since, start => since + cooldown ≤ start

/-- After a call that went through and ended at `finish`. -/
def after : CircuitBreaker → Outcome → Nat → CircuitBreaker
  | .closed n, .transient, finish => if n + 1 < threshold then .closed (n + 1) else .opened finish
  | .closed _, .success, _ => .closed 0
  | .closed n, .permanent, _ | .closed n, .cancelled, _ => .closed n
  | .opened _, .success, _ | .opened _, .permanent, _ => .closed 0
  | .opened _, .transient, finish | .opened _, .cancelled, finish => .opened finish

/-- One call, with its outcome and its end if it went through. -/
def call (breaker : CircuitBreaker) (start : Nat) (outcome : Option (Outcome × Nat)) :
    CircuitBreaker :=
  if breaker.admits cooldown start then
    match outcome with
    | some (outcome, finish) => breaker.after threshold outcome finish
    | none => breaker
  else breaker

end CircuitBreaker

end NewsApi.Patterns
