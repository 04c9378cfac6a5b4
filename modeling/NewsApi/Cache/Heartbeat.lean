import NewsApi.Config.Cache
import NewsApi.Errors

/-! # The heartbeat of a lease

The object that `startLeaseHeartbeat` closes over. `renew` is an `async`
function of it: `renew` below runs to its await, `settle` from there on. No
error leaves it. -/
namespace NewsApi.Cache
open NewsApi.Text NewsApi.Errors NewsApi.Config

structure Heartbeat where
  key : JsString
  owner : JsString
  ttlMs : Nat
  /-- the period of the interval timer, until it is cleared -/
  timer : Option Nat
  stopped : Bool
  renewalInFlight : Bool
  deriving DecidableEq

/-- `rawHeartbeatMs` is `CACHE_LEASE_HEARTBEAT_MS`. -/
def startLeaseHeartbeat (rawHeartbeatMs : Option JsString) (key owner : JsString) (ttlMs : Nat) :
    Heartbeat where
  key := key
  owner := owner
  ttlMs := ttlMs
  timer := some (resolveCacheLeaseHeartbeatMs rawHeartbeatMs ttlMs)
  stopped := false
  renewalInFlight := false

namespace Heartbeat

def stop (hb : Heartbeat) : Heartbeat := { hb with stopped := true, timer := none }

/-- Up to the await; `none`: nothing is sent. -/
def renew (aborted : Bool) (hb : Heartbeat) : Option Heartbeat :=
  if hb.stopped || aborted || hb.renewalInFlight then none
  else some { hb with renewalInFlight := true }

/-- From the await on; a reply that says the lease is gone stops the heartbeat. -/
def settle (renewed : Except JsError Bool) (hb : Heartbeat) : Heartbeat :=
  let hb := match renewed with
    | .ok false => if hb.stopped then hb else hb.stop
    | _ => hb
  { hb with renewalInFlight := false }

theorem renew_eq_some {aborted : Bool} {hb hb' : Heartbeat} :
    hb.renew aborted = some hb' ↔ hb.stopped = false ∧ aborted = false ∧
      hb.renewalInFlight = false ∧ hb' = { hb with renewalInFlight := true } := by
  unfold renew
  cases hb.stopped <;> cases aborted <;> cases hb.renewalInFlight <;> simp [eq_comm]

@[simp] theorem settle_ok_true (hb : Heartbeat) :
    hb.settle (.ok true) = { hb with renewalInFlight := false } := rfl

@[simp] theorem settle_renewalInFlight (renewed : Except JsError Bool) (hb : Heartbeat) :
    (hb.settle renewed).renewalInFlight = false := rfl

theorem settle_stopped {renewed : Except JsError Bool} {hb : Heartbeat} (h : hb.stopped = true) :
    (hb.settle renewed).stopped = true := by
  unfold settle
  rcases renewed with e | _ | _ <;> simp [h]

end Heartbeat

end NewsApi.Cache
