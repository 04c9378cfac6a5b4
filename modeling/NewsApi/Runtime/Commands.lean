import NewsApi.Async.Prog
import NewsApi.Providers.Circuit
import NewsApi.Types.Search

/-! # What a running search asks of the process

The upstream work of one in-flight search is a program over these commands.
The first group is answered within the synchronous step, the second by the
event loop. Spans, logs and counters have no effect on the outcome and are left
out; a span still costs an await (`withSpan`). -/
namespace NewsApi.Runtime
open NewsApi.Async NewsApi.Text NewsApi.Types NewsApi.Errors NewsApi.Providers

/-- The abort signals a search can look at: the one it was given, the process
shutdown signal, its total deadline, and their combination. -/
inductive Signal where
  | client
  | shutdown
  | deadline
  | request
  deriving DecidableEq

/-- Query parameters of a provider call. -/
structure ProviderParams where
  q : JsString
  max : Nat
  page : Nat
  token : Option JsString
  lang : Option JsString
  country : Option JsString
  «from» : Option JsString
  «to» : Option JsString
  sortby : Option ArticleSortBy

inductive Command where
  /-- `signal.aborted` -/
  | aborted (signal : Signal)
  | dateNow
  | random
  | randomUUID
  | createAbortDeadline (timeoutMs : Nat)
  | cancelDeadline
  | assertCircuitAllowsRequest
  | closeCircuit
  | recordProviderFailure
  | recordCanceledProbe (circuitState : CircuitRequestState)
  | startHeartbeat (key owner : JsString) (ttlMs : Nat)
  | stopHeartbeat
  /-- history only: what the provider call of this search settled with -/
  | providerSettled (result : Except JsError ArticleList)
  | storeGet (key : JsString)
  | storeSet (key : JsString) (value : Json) (ttlSec : Nat)
  | storeDelete (key : JsString)
  | tryAcquireLease (key owner : JsString) (ttlMs : Nat)
  | releaseLease (key owner : JsString)
  /-- a timer that rejects when `signal` aborts -/
  | sleep (delayMs : Nat) (signal : Signal)
  | axiosGet (params : ProviderParams)
  /-- the turn an await of an already settled promise takes -/
  | tick

abbrev Reply : Command → Type
  | .aborted _ => Bool
  | .dateNow => Nat
  | .random => Rat
  | .randomUUID => JsString
  | .createAbortDeadline _ => Unit
  | .cancelDeadline => Unit
  | .assertCircuitAllowsRequest => Except JsError CircuitRequestState
  | .closeCircuit => Unit
  | .recordProviderFailure => Unit
  | .recordCanceledProbe _ => Unit
  | .startHeartbeat _ _ _ => Unit
  | .stopHeartbeat => Unit
  | .providerSettled _ => Unit
  | .storeGet _ => Except JsError (Option Json)
  | .storeSet _ _ _ => Except JsError Unit
  | .storeDelete _ => Except JsError Unit
  | .tryAcquireLease _ _ _ => Except JsError Bool
  | .releaseLease _ _ => Except JsError Unit
  | .sleep _ _ => Except JsError Unit
  | .axiosGet _ => Except JsError Json
  | .tick => Unit

abbrev Job (α : Type) : Type 1 := AsyncM JsError Command Reply α

def command (c : Command) : Prog Command Reply (Reply c) := Prog.command c

/-- A command of the event loop or the process, for its value. -/
def ask (c : Command) : Job (Reply c) := liftM (command c)

/-- A command whose reply is a promise's outcome. -/
def await {α : Type} (p : Prog Command Reply (Except JsError α)) : Job α := ExceptT.mk p

def throwIfAborted (signal : Signal) : Job Unit := do
  if (← ask (.aborted signal)) then throw .requestAborted

def sleep (delayMs : Nat) (signal : Signal) : Job Unit := do
  throwIfAborted signal
  await (command (.sleep delayMs signal))

/-- `withSpan(name, attributes, operation)` awaits the operation and settles
as it does. -/
def withSpan {α : Type} (operation : Job α) : Job α := do
  let result ← AsyncM.attempt operation
  ask .tick
  AsyncM.ofExcept result

end NewsApi.Runtime
