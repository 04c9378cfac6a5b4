import Mathlib.Data.Rat.Floor
import Mathlib.Tactic.Linarith
import NewsApi.Cache.Heartbeat
import NewsApi.Cache.Lease

/-! # A lease under its heartbeat

Time is continuous; the server's clock shows the whole milliseconds of it. Time
passes only while nothing is due: ticks fire on time, and a renewal is executed
and answered within `latency` of being sent. -/
namespace NewsApi.Cache.LeaseKept
open NewsApi.Async NewsApi.Text NewsApi.Redis NewsApi.Errors NewsApi.Config NewsApi.Cache.Lease

structure Setting where
  key : JsString
  owner : JsString
  ttlMs : LeaseTtl
  two_le : 2 ≤ ttlMs.ms
  /-- `CACHE_LEASE_HEARTBEAT_MS` -/
  rawHeartbeatMs : Option JsString
  latency : Rat
  latency_nonneg : 0 ≤ latency
  latency_lt : latency < resolveCacheLeaseHeartbeatMs rawHeartbeatMs ttlMs.ms

/-- The period of the ticks. -/
def Setting.period (s : Setting) : Nat := resolveCacheLeaseHeartbeatMs s.rawHeartbeatMs s.ttlMs.ms

/-- A renewal that is not answered yet. -/
structure Renewal where
  sentAt : Rat
  /-- once it is executed -/
  reply : Option Bool

structure World where
  now : Rat
  db : Db
  /-- the signal of the request -/
  aborted : Bool
  heartbeat : Option Heartbeat
  /-- when the interval timer is due -/
  nextTick : Rat
  inFlight : List Renewal
  /-- when the renewals were sent -/
  sent : List Rat
  /-- the load has settled and `heartbeat.stop()` was called -/
  ended : Bool

inductive Event where
  | elapse (ms : Rat)
  /-- what others do to the server -/
  | server (e : Lease.Event JsString)
  | abort
  | startHeartbeat
  | tick
  | execute (i : Nat)
  /-- the promise of a renewal settles, with its reply or with an error -/
  | answer (i : Nat) (failure : Option JsError)
  | stop

/-- Right after the grant. -/
def start (now : Rat) (db : Db) : World where
  now := now
  db := db
  aborted := false
  heartbeat := none
  nextTick := now
  inFlight := []
  sent := []
  ended := false

/-- The others use other tokens, and their commands take no time. -/
def foreign (owner : JsString) : Lease.Event JsString → Bool
  | .exec (.acquire o _) | .exec (.renew o _) | .exec (.release o) => o ≠ owner
  | .elapse _ => false
  | .sweep _ | .write _ _ => true

/-- The outcome of a renewal, once the promise settles. -/
def outcome (reply : Bool) : Option JsError → Except JsError Bool
  | none => .ok reply
  | some e => .error e

variable (s : Setting)

/-- A tick calls `renew`. -/
def tick (w : World) (hb : Heartbeat) : World :=
  let w := { w with nextTick := w.now + s.period }
  match hb.renew w.aborted with
  | some hb => { w with
      heartbeat := some hb
      inFlight := w.inFlight ++ [⟨w.now, none⟩]
      sent := w.sent ++ [w.now] }
  | none => w

def step (w : World) : Event → Option World
  | .elapse ms =>
    if 0 < ms then
      let now := w.now + ms
      some { w with now := now, db := w.db.elapse (⌊now⌋₊ - w.db.now) }
    else none
  | .server e =>
    if foreign s.owner e then
      (Lease.step id s.key ⟨w.db, fun _ => none⟩ e).map fun server => { w with db := server.db }
    else none
  | .abort => some { w with aborted := true }
  | .startHeartbeat =>
    match w.heartbeat with
    | none => some { w with
        heartbeat := some (startLeaseHeartbeat s.rawHeartbeatMs s.key s.owner s.ttlMs.ms)
        nextTick := w.now + s.period }
    | some _ => none
  | .tick =>
    match w.heartbeat with
    | some hb => if hb.timer.isSome ∧ w.now = w.nextTick then some (tick s w hb) else none
    | none => none
  | .execute i =>
    match w.inFlight[i]? with
    | some ⟨sentAt, none⟩ =>
      let (reply, db) := renewLease s.key s.owner s.ttlMs w.db
      some { w with db := db, inFlight := w.inFlight.set i ⟨sentAt, some reply⟩ }
    | _ => none
  | .answer i failure =>
    match w.inFlight[i]?, w.heartbeat with
    | some ⟨_, some reply⟩, some hb =>
      let renewed := outcome reply failure
      some { w with heartbeat := some (hb.settle renewed), inFlight := w.inFlight.eraseIdx i }
    | _, _ => none
  | .stop => w.heartbeat.map fun hb => { w with heartbeat := some hb.stop, ended := true }

/-- The heartbeat starts in time, its ticks fire on time, and no renewal is
unanswered for longer than `latency`. -/
def onTime (grantedAt : Rat) (w : World) : Bool :=
  match w.heartbeat with
  | none => w.now - grantedAt < s.ttlMs.ms - s.period - s.latency
  | some hb => (hb.timer.isNone || w.now ≤ w.nextTick) &&
      w.inFlight.all fun r => w.now ≤ r.sentAt + s.latency

/-! ## What a step does -/

inductive Next (w : World) : World → Prop where
  | elapse {ms : Rat} (hms : 0 < ms) : Next w
      { w with now := w.now + ms, db := w.db.elapse (⌊w.now + ms⌋₊ - w.db.now) }
  | server {e : Lease.Event JsString} {server : System JsString} (he : foreign s.owner e = true)
      (hserver : Lease.step id s.key ⟨w.db, fun _ => none⟩ e = some server) :
      Next w { w with db := server.db }
  | abort : Next w { w with aborted := true }
  | startHeartbeat (h : w.heartbeat = none) : Next w
      { w with
        heartbeat := some (startLeaseHeartbeat s.rawHeartbeatMs s.key s.owner s.ttlMs.ms)
        nextTick := w.now + s.period }
  | quiet {hb : Heartbeat} (hhb : w.heartbeat = some hb) (hdue : w.now = w.nextTick)
      (hrenew : hb.renew w.aborted = none) : Next w { w with nextTick := w.now + s.period }
  | send {hb hb' : Heartbeat} (hhb : w.heartbeat = some hb) (hdue : w.now = w.nextTick)
      (hrenew : hb.renew w.aborted = some hb') : Next w
      { w with
        nextTick := w.now + s.period
        heartbeat := some hb'
        inFlight := w.inFlight ++ [⟨w.now, none⟩]
        sent := w.sent ++ [w.now] }
  | execute {i : Nat} {sentAt : Rat} (h : w.inFlight[i]? = some ⟨sentAt, none⟩) : Next w
      { w with
        db := (renewLease s.key s.owner s.ttlMs w.db).2
        inFlight := w.inFlight.set i
          ⟨sentAt, some (renewLease s.key s.owner s.ttlMs w.db).1⟩ }
  | answer {i : Nat} {sentAt : Rat} {reply : Bool} {hb : Heartbeat} (failure : Option JsError)
      (h : w.inFlight[i]? = some ⟨sentAt, some reply⟩) (hhb : w.heartbeat = some hb) : Next w
      { w with
        heartbeat := some (hb.settle (outcome reply failure))
        inFlight := w.inFlight.eraseIdx i }
  | stop {hb : Heartbeat} (hhb : w.heartbeat = some hb) : Next w
      { w with heartbeat := some hb.stop, ended := true }

variable {s} {w w' : World}

theorem step_next {e : Event} (h : step s w e = some w') : Next s w w' := by
  cases e with
  | elapse ms =>
    obtain ⟨hms, hw⟩ := Option.ite_none_right_eq_some.mp h
    exact Option.some.inj hw ▸ .elapse hms
  | server e =>
    obtain ⟨he, hw⟩ := Option.ite_none_right_eq_some.mp h
    obtain ⟨server, hserver, hw⟩ := Option.map_eq_some_iff.mp hw
    exact hw ▸ .server he hserver
  | abort => exact Option.some.inj h ▸ .abort
  | startHeartbeat =>
    simp only [step] at h
    split at h
    · rename_i hnone
      exact Option.some.inj h ▸ .startHeartbeat hnone
    · cases h
  | tick =>
    simp only [step] at h
    split at h
    · rename_i hb hhb
      obtain ⟨⟨-, hdue⟩, hw⟩ := Option.ite_none_right_eq_some.mp h
      rw [← Option.some.inj hw]
      unfold LeaseKept.tick
      dsimp only
      split
      · rename_i hrenew
        exact .send hhb hdue hrenew
      · rename_i hrenew
        exact .quiet hhb hdue hrenew
    · cases h
  | execute i =>
    simp only [step] at h
    split at h
    · rename_i hi
      exact Option.some.inj h ▸ .execute hi
    · cases h
  | answer i failure =>
    simp only [step] at h
    split at h
    · rename_i hi hhb
      exact Option.some.inj h ▸ .answer failure hi hhb
    · cases h
  | stop =>
    obtain ⟨hb, hhb, hw⟩ := Option.map_eq_some_iff.mp h
    exact hw ▸ .stop hhb

/-! ## One renewal at a time, and none after `stop` -/

structure Tidy (w : World) : Prop where
  unstarted : w.heartbeat = none → w.inFlight = [] ∧ w.ended = false
  single : ∀ hb, w.heartbeat = some hb →
    w.inFlight.length = if hb.renewalInFlight then 1 else 0
  ended : w.ended = true → ∃ hb, w.heartbeat = some hb ∧ hb.stopped = true

theorem Tidy.length_le (h : Tidy w) : w.inFlight.length ≤ 1 := by
  cases hhb : w.heartbeat with
  | none => simp [(h.unstarted hhb).1]
  | some hb =>
    rw [h.single hb hhb]
    split <;> omega

theorem start_tidy (now : Rat) (db : Db) : Tidy (start now db) where
  unstarted := fun _ => ⟨rfl, rfl⟩
  single := fun _ h => nomatch h
  ended := fun h => nomatch h

theorem next_tidy (h : Tidy w) (hnext : Next s w w') : Tidy w' := by
  cases hnext with
  | elapse hms => exact ⟨h.unstarted, h.single, h.ended⟩
  | server he hserver => exact ⟨h.unstarted, h.single, h.ended⟩
  | abort => exact ⟨h.unstarted, h.single, h.ended⟩
  | startHeartbeat hnone =>
    obtain ⟨hempty, hended⟩ := h.unstarted hnone
    refine ⟨fun hsome => (Option.some_ne_none _ hsome).elim, fun hb hhb => ?_, fun ho => ?_⟩
    · rw [← Option.some.inj hhb]
      exact congrArg List.length hempty
    · exact absurd (hended.symm.trans ho) (by decide)
  | quiet hhb hdue hrenew => exact ⟨h.unstarted, h.single, h.ended⟩
  | @send hb hb' hhb hdue hrenew =>
    obtain ⟨hstopped, -, hidle, rfl⟩ := Heartbeat.renew_eq_some.mp hrenew
    refine ⟨fun hsome => (Option.some_ne_none _ hsome).elim, fun hb1 hhb1 => ?_, fun ho => ?_⟩
    · have hempty := h.single hb hhb
      rw [hidle] at hempty
      rw [← Option.some.inj hhb1, List.length_append, hempty]
      rfl
    · obtain ⟨hb1, hhb1, hstop⟩ := h.ended ho
      rw [hhb] at hhb1
      rw [← Option.some.inj hhb1, hstopped] at hstop
      cases hstop
  | execute hi =>
    refine ⟨fun hnone => ⟨?_, (h.unstarted hnone).2⟩, fun hb hhb => ?_, h.ended⟩
    · rw [(h.unstarted hnone).1]
      rfl
    · rw [List.length_set]
      exact h.single hb hhb
  | @answer i sentAt reply hb failure hi hhb =>
    have hlt := (List.getElem?_eq_some_iff.mp hi).1
    have hlen := h.single hb hhb
    refine ⟨fun hsome => (Option.some_ne_none _ hsome).elim, fun hb1 hhb1 => ?_, fun ho => ?_⟩
    · rw [← Option.some.inj hhb1, Heartbeat.settle_renewalInFlight, List.length_eraseIdx_of_lt hlt]
      have := h.length_le
      exact Nat.sub_eq_zero_of_le this
    · obtain ⟨hb1, hhb1, hstop⟩ := h.ended ho
      rw [hhb] at hhb1
      exact ⟨_, rfl, Heartbeat.settle_stopped (Option.some.inj hhb1 ▸ hstop)⟩
  | @stop hb hhb =>
    exact ⟨fun hsome => (Option.some_ne_none _ hsome).elim,
      fun hb1 hhb1 => Option.some.inj hhb1 ▸ h.single hb hhb, fun _ => ⟨_, rfl, rfl⟩⟩

/-- After `stop` nothing is sent. -/
theorem next_ended (h : Tidy w) (hended : w.ended = true) (hnext : Next s w w') :
    w'.ended = true ∧ w'.sent = w.sent := by
  cases hnext with
  | @send hb hb' hhb hdue hrenew =>
    obtain ⟨hb1, hhb1, hstop⟩ := h.ended hended
    rw [hhb] at hhb1
    have hstopped := (Heartbeat.renew_eq_some.mp hrenew).1
    rw [Option.some.inj hhb1, hstop] at hstopped
    cases hstopped
  | stop hhb => exact ⟨rfl, rfl⟩
  | _ => exact ⟨hended, rfl⟩

/-! ## The lease is renewed before it ends -/

section
variable (s)

/-- How far the next renewal is, while the lease is good up to `E`. -/
inductive Coming (grantedAt : Rat) (w : World) (E : Nat) : Prop where
  | unstarted (hnone : w.heartbeat = none) (hflight : w.inFlight = [])
      (hE : grantedAt + s.ttlMs.ms < E + 1)
  | idle {hb : Heartbeat} (hhb : w.heartbeat = some hb) (hstopped : hb.stopped = false)
      (htimer : hb.timer = some s.period) (hflag : hb.renewalInFlight = false)
      (hflight : w.inFlight = []) (hE : w.nextTick + s.latency < E + 1)
  | sent {hb : Heartbeat} {sentAt : Rat} (hhb : w.heartbeat = some hb)
      (hstopped : hb.stopped = false) (htimer : hb.timer = some s.period)
      (hflight : w.inFlight = [⟨sentAt, none⟩]) (hpast : sentAt ≤ w.now)
      (hnext : w.nextTick = sentAt + s.period) (hE : sentAt + s.latency < E + 1)
  | executed {hb : Heartbeat} {sentAt : Rat} (hhb : w.heartbeat = some hb)
      (hstopped : hb.stopped = false) (htimer : hb.timer = some s.period)
      (hflight : w.inFlight = [⟨sentAt, some true⟩]) (hnext : w.nextTick = sentAt + s.period)
      (hE : w.nextTick + s.latency < E + 1)

structure Kept (grantedAt : Rat) (w : World) : Prop where
  timely : onTime s grantedAt w = true
  nonneg : 0 ≤ w.now
  clock : w.db.now = ⌊w.now⌋₊
  lease : w.ended = false → w.aborted = false → ∃ E,
    Represents id s.key w.db (some ⟨s.owner, E⟩) ∧ Coming s grantedAt w E

end

theorem two_mul_period (s : Setting) : 2 * (s.period : Rat) ≤ s.ttlMs.ms := by
  have := (resolveCacheLeaseHeartbeatMs_bounds s.rawHeartbeatMs s.two_le).2
  exact_mod_cast this

theorem latency_lt_period (s : Setting) : s.latency < s.period := s.latency_lt

variable {grantedAt : Rat} {E : Nat}

/-- While nothing is due, the lease is good. -/
theorem Coming.now_lt (h : Coming s grantedAt w E) (hon : onTime s grantedAt w = true) :
    w.now < E + 1 := by
  have hd := s.latency_nonneg
  have hperiod : (0 : Rat) ≤ s.period := Nat.cast_nonneg _
  unfold onTime at hon
  cases h with
  | unstarted hnone hempty hE =>
    simp only [hnone, decide_eq_true_eq] at hon
    linarith
  | idle hhb hstopped htimer hflag hflight hE =>
    simp only [hhb, htimer, Option.isNone_some, Bool.false_or, Bool.and_eq_true,
      decide_eq_true_eq] at hon
    linarith [hon.1]
  | sent hhb hstopped htimer hflight hpast hnext hE =>
    simp only [hhb, hflight, List.all_cons, List.all_nil, Bool.and_true, Bool.and_eq_true,
      decide_eq_true_eq] at hon
    linarith [hon.2]
  | executed hhb hstopped htimer hflight hnext hE =>
    simp only [hhb, htimer, Option.isNone_some, Bool.false_or, Bool.and_eq_true,
      decide_eq_true_eq] at hon
    linarith [hon.1]

/-- A tick finds no renewal in flight. -/
theorem Coming.idle_of_due (h : Coming s grantedAt w E) (hon : onTime s grantedAt w = true)
    {hb : Heartbeat} (hhb : w.heartbeat = some hb) (hdue : w.now = w.nextTick) :
    hb.stopped = false ∧ hb.timer = some s.period ∧ hb.renewalInFlight = false ∧
      w.inFlight = [] ∧ w.nextTick + s.latency < E + 1 := by
  have hlt := latency_lt_period s
  unfold onTime at hon
  cases h with
  | unstarted hnone hempty hE =>
    rw [hhb] at hnone
    cases hnone
  | idle hhb' hstopped htimer hflag hflight hE =>
    rw [hhb] at hhb'
    cases hhb'
    exact ⟨hstopped, htimer, hflag, hflight, hE⟩
  | sent hhb' hstopped htimer hflight hpast hnext hE =>
    simp only [hhb, hflight, List.all_cons, List.all_nil, Bool.and_true, Bool.and_eq_true,
      decide_eq_true_eq] at hon
    linarith [hon.2]
  | executed hhb' hstopped htimer hflight hnext hE =>
    simp only [hhb, hflight, List.all_cons, List.all_nil, Bool.and_true, Bool.and_eq_true,
      decide_eq_true_eq] at hon
    linarith [hon.2]

/-- What others do leaves the lease and the clock alone. -/
theorem server_represents {owner key : JsString} {db : Db} {e : Lease.Event JsString}
    {server : System JsString} (he : foreign owner e = true)
    (hserver : Lease.step id key ⟨db, fun _ => none⟩ e = some server)
    (h : Represents id key db (some ⟨owner, E⟩)) :
    Represents id key server.db (some ⟨owner, E⟩) := by
  cases e with
  | exec c =>
    cases hserver
    obtain ⟨-, hdb⟩ := exec_refines Function.injective_id h c
    have hother : (Held.exec db.now (some ⟨owner, E⟩) c).2 = some ⟨owner, E⟩ := by
      cases c with
      | acquire o ttlMs => rfl
      | renew o ttlMs =>
        have hne : owner ≠ o := fun heq => by simp [foreign, heq] at he
        simp [Held.exec, hne]
      | release o =>
        have hne : owner ≠ o := fun heq => by simp [foreign, heq] at he
        simp [Held.exec, hne]
    rwa [hother] at hdb
  | elapse ms => cases he
  | sweep k =>
    cases hserver
    exact (Keyspace.lookup_sweep db key k).trans h
  | write k entry =>
    obtain ⟨hk, hs⟩ := Option.ite_none_left_eq_some.mp hserver
    cases hs
    exact (Keyspace.lookup_put_ne db entry (Ne.symm hk)).trans h

theorem server_now {owner key : JsString} {db : Db} {e : Lease.Event JsString}
    {server : System JsString} (he : foreign owner e = true)
    (hserver : Lease.step id key ⟨db, fun _ => none⟩ e = some server) :
    server.db.now = db.now := by
  cases e with
  | exec c =>
    cases hserver
    exact exec_now c
  | elapse ms => cases he
  | sweep k =>
    cases hserver
    exact Keyspace.sweep_now db k
  | write k entry =>
    obtain ⟨hk, hs⟩ := Option.ite_none_left_eq_some.mp hserver
    cases hs
    rfl

/-- A renewal of the lease extends it. -/
theorem renew_represents {s : Setting} {db : Db}
    (h : Represents id s.key db (some ⟨s.owner, E⟩)) :
    (renewLease s.key s.owner s.ttlMs db).1 = true ∧
      Represents id s.key (renewLease s.key s.owner s.ttlMs db).2
        (some ⟨s.owner, db.now + s.ttlMs.ms⟩) := by
  obtain ⟨hreply, hdb⟩ := exec_refines Function.injective_id h (.renew s.owner s.ttlMs)
  have hrenew : Held.exec db.now (some ⟨s.owner, E⟩) (.renew s.owner s.ttlMs) =
      (true, some ⟨s.owner, db.now + s.ttlMs.ms⟩) := by simp [Held.exec]
  rw [hrenew] at hreply hdb
  exact ⟨hreply, hdb⟩

theorem start_onTime (s : Setting) (grantedAt : Rat) (db : Db) :
    onTime s grantedAt (start grantedAt db) = true := by
  have hlt := latency_lt_period s
  have htwo := two_mul_period s
  simp only [onTime, start, sub_self, decide_eq_true_eq]
  linarith

theorem start_kept {db db' : Db} (hnonneg : 0 ≤ grantedAt) (hclock : db.now = ⌊grantedAt⌋₊)
    (hgrant : tryAcquireLease s.key s.owner s.ttlMs db = (true, db')) :
    Kept s grantedAt (start grantedAt db') := by
  have hacquired : Represents id s.key db' (some ⟨s.owner, db.now + s.ttlMs.ms⟩) ∧
      db'.now = db.now := by
    unfold tryAcquireLease Keyspace.setNxPx at hgrant
    split at hgrant
    · cases hgrant
    · cases hgrant
      exact ⟨Keyspace.lookup_put_fresh db s.key s.owner s.ttlMs.ms, rfl⟩
  refine ⟨start_onTime s grantedAt db', hnonneg, hacquired.2.trans hclock,
    fun _ _ => ⟨_, hacquired.1, .unstarted rfl rfl ?_⟩⟩
  have := Nat.lt_floor_add_one grantedAt
  rw [hclock, Nat.cast_add]
  linarith

theorem getElem?_singleton_eq_some {β : Type} {a b : β} {i : Nat} (h : [a][i]? = some b) :
    i = 0 ∧ a = b := by
  cases i with
  | zero => exact ⟨rfl, Option.some.inj h⟩
  | succ i => simp at h

/-- Neither its reply nor an error after it stops the heartbeat. -/
theorem settle_executed (hb : Heartbeat) (failure : Option JsError) :
    (hb.settle (outcome true failure)).stopped = hb.stopped ∧
      (hb.settle (outcome true failure)).timer = hb.timer := by
  cases failure <;> exact ⟨rfl, rfl⟩

theorem Coming.later (h : Coming s grantedAt w E) (hhb : w'.heartbeat = w.heartbeat)
    (hflight : w'.inFlight = w.inFlight) (htick : w'.nextTick = w.nextTick)
    (hnow : w.now ≤ w'.now) : Coming s grantedAt w' E := by
  cases h with
  | unstarted hnone hempty hE => exact .unstarted (hhb.trans hnone) (hflight.trans hempty) hE
  | idle hhb' hstopped htimer hflag hempty hE =>
    exact .idle (hhb.trans hhb') hstopped htimer hflag (hflight.trans hempty) (htick ▸ hE)
  | sent hhb' hstopped htimer hone hpast hnext hE =>
    exact .sent (hhb.trans hhb') hstopped htimer (hflight.trans hone) (hpast.trans hnow)
      (htick.trans hnext) hE
  | executed hhb' hstopped htimer hone hnext hE =>
    exact .executed (hhb.trans hhb') hstopped htimer (hflight.trans hone) (htick.trans hnext)
      (htick ▸ hE)

theorem next_kept (h : Kept s grantedAt w) (hnext : Next s w w')
    (hon : onTime s grantedAt w' = true) : Kept s grantedAt w' := by
  have htwo := two_mul_period s
  have hlatency := latency_lt_period s
  cases hnext with
  | @elapse ms hms =>
    have hle : w.db.now ≤ ⌊w.now + ms⌋₊ := h.clock ▸ Nat.floor_le_floor (by linarith)
    have hclock : w.db.now + (⌊w.now + ms⌋₊ - w.db.now) = ⌊w.now + ms⌋₊ := Nat.add_sub_cancel' hle
    have hnonneg : 0 ≤ w.now + ms := by linarith [h.nonneg]
    refine ⟨hon, hnonneg, hclock, fun hended hab => ?_⟩
    obtain ⟨E, hdb, hcoming⟩ := h.lease hended hab
    have hlater : Coming s grantedAt { w with
        now := w.now + ms, db := w.db.elapse (⌊w.now + ms⌋₊ - w.db.now) } E :=
      hcoming.later rfl rfl rfl (by simp only; linarith)
    refine ⟨E, Keyspace.lookup_elapse_alive hdb (decide_eq_true ?_), hlater⟩
    rw [hclock]
    have hlt : w.now + ms < ((E + 1 : Nat) : Rat) := by exact_mod_cast hlater.now_lt hon
    exact Nat.lt_succ_iff.mp ((Nat.floor_lt hnonneg).mpr hlt)
  | server he hserver =>
    refine ⟨hon, h.nonneg, (server_now he hserver).trans h.clock, fun hended hab => ?_⟩
    obtain ⟨E, hdb, hcoming⟩ := h.lease hended hab
    exact ⟨E, server_represents he hserver hdb, hcoming.later rfl rfl rfl le_rfl⟩
  | abort => exact ⟨hon, h.nonneg, h.clock, fun _ hab => nomatch hab⟩
  | startHeartbeat hnone =>
    refine ⟨hon, h.nonneg, h.clock, fun hended hab => ?_⟩
    obtain ⟨E, hdb, hcoming⟩ := h.lease hended hab
    have hstarted := h.timely
    cases hcoming with
    | unstarted hnone' hempty hE =>
      simp only [onTime, hnone, decide_eq_true_eq] at hstarted
      refine ⟨E, hdb, .idle rfl rfl rfl rfl hempty ?_⟩
      simp only
      linarith
    | idle hhb' hstopped htimer hflag hempty hE => rw [hnone] at hhb'; cases hhb'
    | sent hhb' hstopped htimer hone hpast hnext hE => rw [hnone] at hhb'; cases hhb'
    | executed hhb' hstopped htimer hone hnext hE => rw [hnone] at hhb'; cases hhb'
  | @quiet hb hhb hdue hrenew =>
    refine ⟨hon, h.nonneg, h.clock, fun hended hab => ?_⟩
    obtain ⟨E, hdb, hcoming⟩ := h.lease hended hab
    obtain ⟨hstopped, htimer, hflag, hflight, hE⟩ := hcoming.idle_of_due h.timely hhb hdue
    have hab' : w.aborted = false := hab
    simp [Heartbeat.renew, hstopped, hflag, hab'] at hrenew
  | @send hb hb' hhb hdue hrenew =>
    refine ⟨hon, h.nonneg, h.clock, fun hended hab => ?_⟩
    obtain ⟨E, hdb, hcoming⟩ := h.lease hended hab
    obtain ⟨hstopped, htimer, hflag, hflight, hE⟩ := hcoming.idle_of_due h.timely hhb hdue
    obtain ⟨-, -, -, rfl⟩ := Heartbeat.renew_eq_some.mp hrenew
    refine ⟨E, hdb, .sent rfl hstopped htimer (by rw [hflight]; rfl) le_rfl rfl ?_⟩
    rwa [hdue]
  | @execute i sentAt hi =>
    have hsame : (exec id s.key w.db (.renew s.owner s.ttlMs)).2.now = w.db.now := exec_now _
    refine ⟨hon, h.nonneg, hsame.trans h.clock, fun hended hab => ?_⟩
    obtain ⟨E, hdb, hcoming⟩ := h.lease hended hab
    obtain ⟨hreply, hdb'⟩ := renew_represents hdb
    refine ⟨_, hdb', ?_⟩
    cases hcoming with
    | unstarted hnone' hempty hE =>
      rw [hempty] at hi
      cases hi
    | idle hhb' hstopped htimer hflag hempty hE =>
      rw [hempty] at hi
      cases hi
    | @sent hb sentAt' hhb' hstopped htimer hone hpast hnext hE =>
      rw [hone] at hi
      obtain ⟨rfl, hrenewal⟩ := getElem?_singleton_eq_some hi
      cases hrenewal
      refine .executed hhb' hstopped htimer ?_ hnext ?_
      · rw [hone, hreply]
        rfl
      · have hfloor := Nat.lt_floor_add_one w.now
        rw [h.clock, Nat.cast_add, hnext]
        linarith
    | executed hhb' hstopped htimer hone hnext hE =>
      rw [hone] at hi
      cases (getElem?_singleton_eq_some hi).2
  | @answer i sentAt reply hb failure hi hhb =>
    refine ⟨hon, h.nonneg, h.clock, fun hended hab => ?_⟩
    obtain ⟨E, hdb, hcoming⟩ := h.lease hended hab
    refine ⟨E, hdb, ?_⟩
    cases hcoming with
    | unstarted hnone' hempty hE =>
      rw [hempty] at hi
      cases hi
    | idle hhb' hstopped htimer hflag hempty hE =>
      rw [hempty] at hi
      cases hi
    | sent hhb' hstopped htimer hone hpast hnext hE =>
      rw [hone] at hi
      cases (getElem?_singleton_eq_some hi).2
    | executed hhb' hstopped htimer hone hnext hE =>
      rw [hhb] at hhb'
      cases hhb'
      rw [hone] at hi
      obtain ⟨rfl, hrenewal⟩ := getElem?_singleton_eq_some hi
      cases hrenewal
      obtain ⟨hsettled, htimer'⟩ := settle_executed hb failure
      exact .idle rfl (hsettled.trans hstopped) (htimer'.trans htimer)
        (Heartbeat.settle_renewalInFlight _ hb) (by rw [hone]; rfl) hE
  | stop hhb => exact ⟨hon, h.nonneg, h.clock, fun hended => nomatch hended⟩

/-- In runs on time: the lease is held by its owner from the grant until `stop`,
unless the signal is aborted; at most one renewal is in flight; and after
`stop` none is sent. -/
theorem lease_kept {s : Setting} {grantedAt : Rat} {db db' : Db} (hnonneg : 0 ≤ grantedAt)
    (hclock : db.now = ⌊grantedAt⌋₊)
    (hgrant : tryAcquireLease s.key s.owner s.ttlMs db = (true, db')) {w : World}
    (hw : Reachable (restrict (onTime s grantedAt) (step s)) (start grantedAt db') w) :
    (w.ended = false → w.aborted = false → w.db.get s.key = some s.owner) ∧
      w.inFlight.length ≤ 1 ∧
      ∀ w', Reachable (restrict (onTime s grantedAt) (step s)) w w' → w.ended = true →
        w'.sent = w.sent := by
  have hinv : Tidy w ∧ Kept s grantedAt w := by
    refine hw.invariant (P := fun w => Tidy w ∧ Kept s grantedAt w)
      ⟨start_tidy _ _, start_kept hnonneg hclock hgrant⟩ fun w e w' h hs => ?_
    obtain ⟨hstep, hon⟩ := restrict_eq_some.mp hs
    exact ⟨next_tidy h.1 (step_next hstep), next_kept h.2 (step_next hstep) hon⟩
  refine ⟨fun hended hab => ?_, hinv.1.length_le, fun w' hw' hended => ?_⟩
  · obtain ⟨E, hdb, -⟩ := hinv.2.lease hended hab
    exact hdb.get
  · have hsilent : Tidy w' ∧ w'.ended = true ∧ w'.sent = w.sent := by
      refine hw'.invariant (P := fun u => Tidy u ∧ u.ended = true ∧ u.sent = w.sent)
        ⟨hinv.1, hended, rfl⟩ fun u e u' h hs => ?_
      have hnext := step_next (restrict_eq_some.mp hs).1
      obtain ⟨hended', hsent⟩ := next_ended h.1 h.2.1 hnext
      exact ⟨next_tidy h.1 hnext, hended', hsent.trans h.2.2⟩
    exact hsilent.2.2

/-! ## A lease of 20 ms -/

def sampleSetting : Setting where
  key := js "k"
  owner := js "o"
  ttlMs := ⟨20, by decide⟩
  two_le := by decide
  rawHeartbeatMs := none
  latency := 1
  latency_nonneg := by decide
  latency_lt := by decide +kernel

def emptyDb : Db := ⟨0, fun _ => none⟩

def grantedDb : Db := (tryAcquireLease (js "k") (js "o") ⟨20, by decide⟩ emptyDb).2

/-- Renewed twice, it outlives its time. -/
theorem lease_kept_renewed : ∃ w, w.now = 39 ∧ w.db.get (js "k") = some (js "o") ∧
    w.inFlight.length ≤ 1 ∧
    ∀ w', Reachable (restrict (onTime sampleSetting 0) (step sampleSetting)) w w' →
      w.ended = true → w'.sent = w.sent := by
  obtain ⟨w, hw, hlast⟩ := Reachable.of_run
    (fun w : World => decide (w.now = 39) && !w.ended && !w.aborted)
    [.startHeartbeat, .elapse 10, .tick, .elapse (1 / 2), .execute 0, .answer 0 none,
      .elapse (19 / 2), .tick, .elapse 1, .execute 0, .answer 0 none, .elapse 9, .tick,
      .elapse 1, .execute 0, .answer 0 none, .elapse 8]
    (show (run (restrict (onTime sampleSetting 0) (step sampleSetting)) (start 0 grantedDb)
      _).map _ = some true by decide +kernel)
  simp only [Bool.and_eq_true, decide_eq_true_eq, Bool.not_eq_true'] at hlast
  obtain ⟨hheld, hone, hsilent⟩ := @lease_kept sampleSetting 0 emptyDb _ le_rfl
    (by decide +kernel) rfl w hw
  exact ⟨w, hlast.1.1, hheld hlast.1.2 hlast.2, hone, hsilent⟩

/-- The signal is aborted and the load goes on. -/
theorem lease_lost_after_abort :
    ∃ w, Reachable (restrict (onTime sampleSetting 0) (step sampleSetting)) (start 0 grantedDb) w ∧
      w.ended = false ∧ w.db.get (js "k") = none := by
  obtain ⟨w, hw, hlast⟩ := Reachable.of_run
    (fun w : World => !w.ended && (w.db.get (js "k")).isNone)
    [.startHeartbeat, .abort, .elapse 10, .tick, .elapse 10, .tick, .elapse 1]
    (show (run (restrict (onTime sampleSetting 0) (step sampleSetting)) (start 0 grantedDb)
      _).map _ = some true by decide +kernel)
  simp only [Bool.and_eq_true, Bool.not_eq_true', Option.isNone_iff_eq_none] at hlast
  exact ⟨w, hw, hlast⟩

end NewsApi.Cache.LeaseKept
