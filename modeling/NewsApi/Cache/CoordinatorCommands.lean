import NewsApi.Cache.Coordinator

/-! # A coordination on its own

The commands of one coordination whose reads and loads are single actions of
its caller, and the program over them. -/
namespace NewsApi.Cache
open NewsApi.Async NewsApi.Text NewsApi.Errors NewsApi.Config

/-- What a coordination asks for when its reads and loads are single actions. -/
inductive CoordinatorCommand where
  | aborted
  | dateNow
  | random
  | randomUUID
  | startHeartbeat (key owner : JsString) (ttlMs : Nat)
  | stopHeartbeat
  | setTimeout (delayMs : Nat)
  | tryAcquireLease (key owner : JsString) (ttlMs : Nat)
  | releaseLease (key owner : JsString)
  | readFresh
  | load

abbrev CoordinatorReply (T : Type) : CoordinatorCommand → Type
  | .aborted => Bool
  | .dateNow => Nat
  | .random => Rat
  | .randomUUID => JsString
  | .startHeartbeat _ _ _ => Unit
  | .stopHeartbeat => Unit
  | .setTimeout _ => Except JsError Unit
  | .tryAcquireLease _ _ _ => Except JsError Bool
  | .releaseLease _ _ => Except JsError Unit
  | .readFresh => Except JsError (Option T)
  | .load => Except JsError T

section
variable (T : Type)

def command (c : CoordinatorCommand) :
    Prog CoordinatorCommand (CoordinatorReply T) (CoordinatorReply T c) := Prog.command c

def leaseStore : CacheLeaseStore CoordinatorCommand (CoordinatorReply T) where
  tryAcquireLease key owner ttlMs := ExceptT.mk (command T (.tryAcquireLease key owner ttlMs))
  releaseLease key owner := ExceptT.mk (command T (.releaseLease key owner))

def coordinatorRuntime : CoordinatorRuntime CoordinatorCommand (CoordinatorReply T) where
  aborted := command T .aborted
  dateNow := command T .dateNow
  random := command T .random
  randomUUID := command T .randomUUID
  setTimeout delayMs := ExceptT.mk (command T (.setTimeout delayMs))
  startLeaseHeartbeat key owner ttlMs := command T (.startHeartbeat key owner ttlMs)
  stopLeaseHeartbeat := command T .stopHeartbeat
  leaseStore := some (leaseStore T)

def readFresh : AsyncM JsError CoordinatorCommand (CoordinatorReply T) (Option T) :=
  ExceptT.mk (command T .readFresh)

def load : AsyncM JsError CoordinatorCommand (CoordinatorReply T) T := ExceptT.mk (command T .load)

/-- The coordination of one key. -/
def coordination (settings : Settings) (platform : Platform) (cacheKey : JsString) :
    Prog CoordinatorCommand (CoordinatorReply T)
      (Except JsError (CacheMissCoordinationResult T)) :=
  (coordinateCacheMiss (coordinatorRuntime T) settings platform cacheKey (readFresh T)
    (load T)).run

end

end NewsApi.Cache
