import NewsApi.App
import NewsApi.Services.CallHistory

/-! # The deployment

Servers in front of the replicas of a cluster. A request arrives at a server and
gets an id. When its guards have decided, it is answered at once, or its
controller calls the service of this replica and answers when that has settled.
Its connection may close at any time. -/
namespace NewsApi.App
open NewsApi.Async NewsApi.Text NewsApi.Types NewsApi.Config NewsApi.Errors NewsApi.Http
open NewsApi.Controllers NewsApi.Services NewsApi.Collections NewsApi.Cache

/-- A request and its response. -/
structure Exchange where
  server : Nat
  request : HttpRequest
  id : JsString
  /-- once they have decided -/
  guards : Option Guards
  /-- the call of the service, and the controller that waits for it -/
  asked : Option (Nat × Pending)
  /-- nothing is done for it any more -/
  ended : Bool
  responses : List Response
  closed : Bool

structure Deployment : Type 1 where
  cluster : Cluster
  exchanges : List Exchange

inductive DeploymentEvent where
  | arrive (server : Nat) (request : HttpRequest) (uuid : Uuid)
  | serve (k : Nat) (guards : Guards) (randoms : Nat → Rat) (uuid : JsString)
  | work (event : ClusterEvent)
  | settle (k : Nat)
  | close (k : Nat)

def Deployment.initial (replicas : Nat) (db : Lease.Db) : Deployment where
  cluster := .initial replicas db
  exchanges := []

/-- The exchange `k` goes on. -/
def Deployment.put (s : Deployment) (k : Nat) (x : Exchange) : Deployment :=
  { s with exchanges := s.exchanges.set k x }

def Exchange.arrived (server : Nat) (request : HttpRequest) (uuid : Uuid) : Exchange where
  server := server
  request := request
  id := genReqId request.xRequestId uuid
  guards := none
  asked := none
  ended := false
  responses := []
  closed := false

/-- What a server sends: with the id, and for `HEAD` without a body. -/
def Exchange.sends (x : Exchange) (res : Response) : Response :=
  { res with
    headers := ("X-Request-Id", x.id) :: res.headers
    body := if x.request.method = .head then none else res.body }

def Exchange.finish (x : Exchange) (res : Option Response) : Exchange :=
  { x with ended := true, responses := x.responses ++ (res.map x.sends).toList }

/-- What only the controllers do in a replica. -/
def isServerEvent : ClusterEvent → Bool
  | .replica _ (.call ..) _ => true
  | .replica _ (.disconnect _) _ => true
  | _ => false

/-- Nothing is answered in this event. -/
def noDelivery : Delivery := ⟨0, []⟩

variable (settings : Settings) (env : Environment) (honest : Bool)

/-- The guards have decided. -/
def serve (s : Deployment) (k : Nat) (x : Exchange) (guards : Guards) (randoms : Nat → Rat)
    (uuid : JsString) : Option Deployment :=
  let x := { x with guards := some guards }
  match handle env x.request x.id guards with
  | .asked pending =>
    (clusterStep settings env.platform honest s.cluster
      (.replica x.server (.call pending.options (some false) randoms uuid) noDelivery)).map
      fun cluster => { s with cluster }.put k
        { x with asked := some ((s.cluster.calls x.server).length, pending) }
  | routed => some (s.put k (x.finish (routed.response env x.request x.id)))

/-- `abortOnPrematureClose`: the listener is there once the controller has called
the service, and until a response has been written. -/
def closeConnection (s : Deployment) (k : Nat) (x : Exchange) : Deployment :=
  let abort := fun i => (clusterStep settings env.platform honest s.cluster
    (.replica x.server (.disconnect i) noDelivery)).getD s.cluster
  let cluster := match x.asked with
    | some (i, _) => if x.responses.isEmpty then abort i else s.cluster
    | none => s.cluster
  { s with cluster }.put k { x with closed := true }

def deploymentStep (s : Deployment) : DeploymentEvent → Option Deployment
  | .arrive server request uuid => s.cluster.replicas[server]?.map fun _ =>
    { s with exchanges := s.exchanges ++ [.arrived server request uuid] }
  | .serve k guards randoms uuid => s.exchanges[k]?.bind fun x =>
    if x.guards.isSome then none else serve settings env honest s k x guards randoms uuid
  | .work event =>
    if isServerEvent event then none
    else (clusterStep settings env.platform honest s.cluster event).map fun cluster =>
      { s with cluster }
  | .settle k => s.exchanges[k]?.bind fun x => x.asked.bind fun (i, pending) =>
    if x.ended then none
    else ((s.cluster.calls x.server)[i]?.bind (·.outcome)).map fun outcome =>
      s.put k (x.finish (settledResponse x.request x.id pending outcome))
  | .close k => s.exchanges[k]?.bind fun x =>
    if x.closed then none else some (closeConnection settings env honest s k x)

variable {settings env honest}
variable {s s' : Deployment} {x : Exchange} {c c' : Cluster} {k n : Nat} {ev : DeploymentEvent}

/-! ## What an event does -/

/-- Besides the exchange `k`, an event changes the cluster at most. -/
inductive Effect (settings : Settings) (env : Environment) (honest : Bool) (s : Deployment) :
    Deployment → Prop
  | arrived (server : Nat) (request : HttpRequest) (uuid : Uuid) :
    Effect settings env honest s
      { s with exchanges := s.exchanges ++ [.arrived server request uuid] }
  | answered {k : Nat} {x : Exchange} (guards : Guards) (hx : s.exchanges[k]? = some x)
    (hnew : x.guards = none)
    (hnot : ∀ pending, handle env x.request x.id guards ≠ .asked pending) :
    Effect settings env honest s (s.put k ({ x with guards := some guards }.finish
      ((handle env x.request x.id guards).response env x.request x.id)))
  | asked {k : Nat} {x : Exchange} {pending : Pending} {cluster : Cluster} (guards : Guards)
    (randoms : Nat → Rat) (uuid : JsString) (hx : s.exchanges[k]? = some x)
    (hnew : x.guards = none) (hasked : handle env x.request x.id guards = .asked pending)
    (hcall : clusterStep settings env.platform honest s.cluster
      (.replica x.server (.call pending.options (some false) randoms uuid) noDelivery) =
        some cluster) :
    Effect settings env honest s ({ s with cluster := cluster }.put k { x with
      guards := some guards
      asked := some ((s.cluster.calls x.server).length, pending) })
  | worked {event : ClusterEvent} {cluster : Cluster} (hevent : isServerEvent event = false)
    (hwork : clusterStep settings env.platform honest s.cluster event = some cluster) :
    Effect settings env honest s { s with cluster := cluster }
  | settled {k i : Nat} {x : Exchange} {pending : Pending} {call : Call}
    {outcome : Except JsError ArticleSearchResult} (hx : s.exchanges[k]? = some x)
    (hasked : x.asked = some (i, pending)) (hopen : x.ended = false)
    (hcall : (s.cluster.calls x.server)[i]? = some call) (hout : call.outcome = some outcome) :
    Effect settings env honest s
      (s.put k (x.finish (settledResponse x.request x.id pending outcome)))
  | closed {k : Nat} {x : Exchange} (hx : s.exchanges[k]? = some x) :
    Effect settings env honest s (s.put k { x with closed := true })
  | left {k i : Nat} {x : Exchange} {pending : Pending} {cluster : Cluster}
    (hx : s.exchanges[k]? = some x) (hasked : x.asked = some (i, pending))
    (hleft : clusterStep settings env.platform honest s.cluster
      (.replica x.server (.disconnect i) noDelivery) = some cluster) :
    Effect settings env honest s ({ s with cluster := cluster }.put k { x with closed := true })

theorem serve_effect {guards : Guards} {randoms : Nat → Rat} {uuid : JsString}
    (hx : s.exchanges[k]? = some x) (hnew : x.guards = none)
    (hs : serve settings env honest s k x guards randoms uuid = some s') :
    Effect settings env honest s s' := by
  unfold serve at hs
  dsimp only at hs
  split at hs
  · rename_i pending hasked
    obtain ⟨cluster, hcall, rfl⟩ := Option.map_eq_some_iff.mp hs
    exact .asked guards randoms uuid hx hnew hasked hcall
  · rename_i hnot
    cases hs
    exact .answered guards hx hnew hnot

theorem closeConnection_effect (hx : s.exchanges[k]? = some x) :
    Effect settings env honest s (closeConnection settings env honest s k x) := by
  unfold closeConnection
  dsimp only
  split
  · rename_i i pending hasked
    split
    · cases hleft : clusterStep settings env.platform honest s.cluster
        (.replica x.server (.disconnect i) noDelivery) with
      | none => exact .closed hx
      | some cluster => exact .left hx hasked hleft
    · exact .closed hx
  · exact .closed hx

theorem deploymentStep_effect (hs : deploymentStep settings env honest s ev = some s') :
    Effect settings env honest s s' := by
  cases ev with
  | arrive server request uuid =>
    obtain ⟨p, -, rfl⟩ := Option.map_eq_some_iff.mp hs
    exact .arrived server request uuid
  | serve k guards randoms uuid =>
    obtain ⟨x, hx, hs⟩ := Option.bind_eq_some_iff.mp hs
    split at hs
    · cases hs
    · rename_i hnew
      exact serve_effect hx (Option.not_isSome_iff_eq_none.mp hnew) hs
  | work event =>
    simp only [deploymentStep] at hs
    split at hs
    · cases hs
    · rename_i hevent
      obtain ⟨cluster, hwork, rfl⟩ := Option.map_eq_some_iff.mp hs
      exact .worked (Bool.eq_false_iff.mpr hevent) hwork
  | settle k =>
    obtain ⟨x, hx, hs⟩ := Option.bind_eq_some_iff.mp hs
    obtain ⟨⟨i, pending⟩, hasked, hs⟩ := Option.bind_eq_some_iff.mp hs
    dsimp only at hs
    split at hs
    · cases hs
    · rename_i hopen
      obtain ⟨outcome, hcall, rfl⟩ := Option.map_eq_some_iff.mp hs
      obtain ⟨call, hcall, hout⟩ := Option.bind_eq_some_iff.mp hcall
      exact .settled hx hasked (Bool.eq_false_iff.mpr hopen) hcall hout
  | close k =>
    obtain ⟨x, hx, hs⟩ := Option.bind_eq_some_iff.mp hs
    split at hs
    · cases hs
    · cases hs
      exact closeConnection_effect hx

/-! ## How far an exchange is -/

/-- The call `i` of the exchange's replica is its own. -/
structure OwnCall (c : Cluster) (x : Exchange) (i : Nat) (pending : Pending) (call : Call) :
    Prop where
  asked : x.asked = some (i, pending)
  stands : (c.calls x.server)[i]? = some call
  options : call.options = pending.options
  /-- only its own connection lets it go -/
  client : call.lo.client = true → x.closed = true

inductive Progress (env : Environment) (c : Cluster) (x : Exchange) : Prop
  | guarded (hguards : x.guards = none) (hasked : x.asked = none) (hover : x.ended = false)
    (hres : x.responses = [])
  | answered {guards : Guards} (hguards : x.guards = some guards) (hasked : x.asked = none)
    (hnot : ∀ pending, handle env x.request x.id guards ≠ .asked pending) (hover : x.ended = true)
    (hres : x.responses = (((handle env x.request x.id guards).response env x.request x.id).map
      x.sends).toList)
  | searching {guards : Guards} {i : Nat} {pending : Pending} {call : Call}
    (hguards : x.guards = some guards)
    (hhandled : handle env x.request x.id guards = .asked pending)
    (hown : OwnCall c x i pending call) (hover : x.ended = false) (hres : x.responses = [])
  | settled {guards : Guards} {i : Nat} {pending : Pending} {call : Call}
    {outcome : Except JsError ArticleSearchResult} (hguards : x.guards = some guards)
    (hhandled : handle env x.request x.id guards = .asked pending)
    (hown : OwnCall c x i pending call) (hout : call.outcome = some outcome)
    (hover : x.ended = true)
    (hres : x.responses = ((settledResponse x.request x.id pending outcome).map x.sends).toList)

/-- The exchange `k` is there for the call `i` of the replica `r`. -/
def Owns (exchanges : List Exchange) (k r i : Nat) : Prop :=
  ∃ x pending, exchanges[k]? = some x ∧ x.server = r ∧ x.asked = some (i, pending)

structure Safe (env : Environment) (s : Deployment) : Prop where
  progress : ∀ x ∈ s.exchanges, Progress env s.cluster x
  /-- no call of the service comes from elsewhere -/
  owned : ∀ r i, i < (s.cluster.calls r).length → ∃ k, Owns s.exchanges k r i
  /-- no call is there for two exchanges -/
  once : ∀ {k k' r i : Nat}, Owns s.exchanges k r i → Owns s.exchanges k' r i → k = k'

/-- The cluster has gone on, and the connection of the exchange may have closed. -/
theorem Progress.goes (h : Progress env c x) (closed : Bool)
    (hclosed : x.closed = true → closed = true)
    (hcalls : ∀ i pending call, x.asked = some (i, pending) →
      (c.calls x.server)[i]? = some call →
      ∃ call', (c'.calls x.server)[i]? = some call' ∧ call.Stays (closed = true) call') :
    Progress env c' { x with closed := closed } := by
  have hgoes : ∀ {i pending call}, OwnCall c x i pending call →
      ∃ call', OwnCall c' { x with closed := closed } i pending call' ∧
        ∀ r, call.outcome = some r → call'.outcome = some r := by
    intro i pending call hown
    obtain ⟨call', hi', hstays⟩ := hcalls i pending call hown.asked hown.stands
    refine ⟨call', ⟨hown.asked, hi', hstays.options.trans hown.options, fun hc => ?_⟩,
      hstays.outcome⟩
    exact (hstays.client hc).elim (fun h => hclosed (hown.client h)) id
  cases h with
  | guarded hguards hasked hover hres => exact .guarded hguards hasked hover hres
  | answered hguards hasked hnot hover hres => exact .answered hguards hasked hnot hover hres
  | searching hguards hhandled hown hover hres =>
    obtain ⟨call', hown', -⟩ := hgoes hown
    exact .searching hguards hhandled hown' hover hres
  | settled hguards hhandled hown hout hover hres =>
    obtain ⟨call', hown', hout'⟩ := hgoes hown
    exact .settled hguards hhandled hown' (hout' _ hout) hover hres

theorem Progress.new (h : Progress env c x) (hnew : x.guards = none) :
    x.asked = none ∧ x.ended = false ∧ x.responses = [] := by
  cases h with
  | guarded hguards hasked hover hres => exact ⟨hasked, hover, hres⟩
  | answered hguards => cases hnew.symm.trans hguards
  | searching hguards => cases hnew.symm.trans hguards
  | settled hguards => cases hnew.symm.trans hguards

theorem Progress.bound {i : Nat} {pending : Pending} (h : Progress env c x)
    (hasked : x.asked = some (i, pending)) : i < (c.calls x.server).length := by
  have hlt : ∀ {i' pending' call}, OwnCall c x i' pending' call → i < (c.calls x.server).length := by
    intro i' pending' call hown
    cases hasked.symm.trans hown.asked
    exact (List.getElem?_eq_some_iff.mp hown.stands).1
  cases h with
  | guarded hguards hnone => cases hasked.symm.trans hnone
  | answered hguards hnone => cases hasked.symm.trans hnone
  | searching hguards hhandled hown => exact hlt hown
  | settled hguards hhandled hown => exact hlt hown

theorem Owns.bound (h : Safe env s) {r i : Nat} (ho : Owns s.exchanges k r i) :
    i < (s.cluster.calls r).length := by
  obtain ⟨x, pending, hx, rfl, hasked⟩ := ho
  exact (h.progress x (List.mem_of_getElem? hx)).bound hasked

/-! ## Whose a call is -/

theorem owns_append {exchanges : List Exchange} {r i : Nat} (hnew : x.asked = none) :
    Owns (exchanges ++ [x]) k r i ↔ Owns exchanges k r i := by
  constructor
  · rintro ⟨y, pending, hy, hserver, hasked⟩
    rcases getElem?_append_cases hy with ⟨-, hy⟩ | ⟨-, rfl⟩
    · exact ⟨y, pending, hy, hserver, hasked⟩
    · cases hnew.symm.trans hasked
  · rintro ⟨y, pending, hy, hserver, hasked⟩
    exact ⟨y, pending, getElem?_append_old hy _, hserver, hasked⟩

theorem owns_set {exchanges : List Exchange} {x' : Exchange} {r i : Nat} {k' : Nat}
    (hx : exchanges[k]? = some x) (hserver : x'.server = x.server) (hasked : x'.asked = x.asked) :
    Owns (exchanges.set k x') k' r i ↔ Owns exchanges k' r i := by
  constructor
  · rintro ⟨y, pending, hy, hr, hi⟩
    rcases getElem?_set_cases hy with ⟨rfl, rfl⟩ | ⟨-, hy⟩
    · exact ⟨x, pending, hx, hserver.symm.trans hr, hasked.symm.trans hi⟩
    · exact ⟨y, pending, hy, hr, hi⟩
  · rintro ⟨y, pending, hy, hr, hi⟩
    by_cases hk : k' = k
    · subst hk
      cases hx.symm.trans hy
      exact ⟨x', pending, getElem?_set_here hx x', hserver.trans hr, hasked.trans hi⟩
    · exact ⟨y, pending, (List.getElem?_set_ne (Ne.symm hk)).trans hy, hr, hi⟩

/-- The exchange `k` has got a call. -/
theorem owns_asked {exchanges : List Exchange} {x' : Exchange} {r i n : Nat} {k' : Nat}
    {pending : Pending} (hx : exchanges[k]? = some x) (hserver : x'.server = x.server)
    (hnone : x.asked = none) (hasked : x'.asked = some (n, pending)) :
    Owns (exchanges.set k x') k' r i ↔
      Owns exchanges k' r i ∨ k' = k ∧ r = x.server ∧ i = n := by
  constructor
  · rintro ⟨y, other, hy, hr, hi⟩
    rcases getElem?_set_cases hy with ⟨rfl, rfl⟩ | ⟨-, hy⟩
    · cases hasked.symm.trans hi
      exact .inr ⟨rfl, hr.symm.trans hserver, rfl⟩
    · exact .inl ⟨y, other, hy, hr, hi⟩
  · rintro (⟨y, other, hy, hr, hi⟩ | ⟨rfl, rfl, rfl⟩)
    · have hk : k' ≠ k := by
        rintro rfl
        cases hx.symm.trans hy
        cases hnone.symm.trans hi
      exact ⟨y, other, (List.getElem?_set_ne (Ne.symm hk)).trans hy, hr, hi⟩
    · exact ⟨x', pending, getElem?_set_here hx x', hserver, hasked⟩

theorem arrives_false {event : ClusterEvent} (h : isServerEvent event = false) :
    event.arrives = false := by
  cases event with
  | replica r event => cases event <;> first | rfl | cases h
  | _ => rfl

/-- Calls and their exchanges come together. -/
inductive Pairs (s s' : Deployment) : Prop
  | same (howns : ∀ k r i, Owns s'.exchanges k r i ↔ Owns s.exchanges k r i)
    (hcalls : ∀ r, (s'.cluster.calls r).length = (s.cluster.calls r).length)
  | more (k₀ r₀ : Nat)
    (howns : ∀ k r i, Owns s'.exchanges k r i ↔
      Owns s.exchanges k r i ∨ k = k₀ ∧ r = r₀ ∧ i = (s.cluster.calls r₀).length)
    (hcalls : ∀ r, (s'.cluster.calls r).length =
      if r = r₀ then (s.cluster.calls r₀).length + 1 else (s.cluster.calls r).length)

theorem Effect.pairs (h : Safe env s) (he : Effect settings env honest s s') : Pairs s s' := by
  cases he with
  | arrived => exact .same (fun k r i => owns_append rfl) fun r => rfl
  | answered guards hx => exact .same (fun k r i => owns_set hx rfl rfl) fun r => rfl
  | @asked k x pending cluster guards randoms uuid hx hnew hasked hcall =>
    obtain ⟨hnone, -, -⟩ := (h.progress x (List.mem_of_getElem? hx)).new hnew
    obtain ⟨call, hcalls, -⟩ := clusterStep_arrives hcall
    refine .more k x.server (fun k r i => owns_asked hx rfl hnone rfl) fun r => ?_
    show (cluster.calls r).length = _
    rw [hcalls]
    split
    · exact List.length_append
    · rfl
  | worked hevent hwork =>
    exact .same (fun k r i => .rfl) fun r => (clusterStep_calls (arrives_false hevent) hwork r).1
  | settled hx => exact .same (fun k r i => owns_set hx rfl rfl) fun r => rfl
  | closed hx => exact .same (fun k r i => owns_set hx rfl rfl) fun r => rfl
  | left hx hasked hleft =>
    exact .same (fun k r i => owns_set hx rfl rfl) fun r => (clusterStep_calls rfl hleft r).1

/-- A call that has arrived is its exchange's. -/
theorem Pairs.owned (hp : Pairs s s') (h : Safe env s) (r i : Nat)
    (hi : i < (s'.cluster.calls r).length) : ∃ k, Owns s'.exchanges k r i := by
  cases hp with
  | same howns hcalls =>
    obtain ⟨k, hk⟩ := h.owned r i (hcalls r ▸ hi)
    exact ⟨k, (howns k r i).mpr hk⟩
  | more k₀ r₀ howns hcalls =>
    rw [hcalls] at hi
    by_cases hnew : r = r₀ ∧ i = (s.cluster.calls r₀).length
    · exact ⟨k₀, (howns k₀ r i).mpr (.inr ⟨rfl, hnew⟩)⟩
    · have hold : i < (s.cluster.calls r).length := by
        split at hi
        · rename_i heq
          subst heq
          exact Nat.lt_of_le_of_ne (Nat.lt_succ_iff.mp hi) fun heq => hnew ⟨rfl, heq⟩
        · exact hi
      obtain ⟨k, hk⟩ := h.owned r i hold
      exact ⟨k, (howns k r i).mpr (.inl hk)⟩

theorem Pairs.once (hp : Pairs s s') (h : Safe env s) {k k' r i : Nat}
    (hk : Owns s'.exchanges k r i) (hk' : Owns s'.exchanges k' r i) : k = k' := by
  cases hp with
  | same howns => exact h.once ((howns k r i).mp hk) ((howns k' r i).mp hk')
  | more k₀ r₀ howns =>
    -- no exchange has had the call that arrives
    have hfresh : ∀ {k}, Owns s.exchanges k r i →
        ¬(r = r₀ ∧ i = (s.cluster.calls r₀).length) := by
      rintro k hold ⟨rfl, rfl⟩
      exact absurd (hold.bound h) (Nat.lt_irrefl _)
    rcases (howns k r i).mp hk with hk | ⟨rfl, hnew⟩ <;>
      rcases (howns k' r i).mp hk' with hk' | ⟨rfl, hnew'⟩
    · exact h.once hk hk'
    · exact absurd hnew' (hfresh hk)
    · exact absurd hnew (hfresh hk')
    · rfl

/-! ## Every step -/

/-- A connection that has closed takes its own call with it. -/
theorem progress_left {i : Nat} {pending : Pending} (h : Safe env s)
    (hx : s.exchanges[k]? = some x) (hasked : x.asked = some (i, pending))
    (hleft : clusterStep settings env.platform honest s.cluster
      (.replica x.server (.disconnect i) noDelivery) = some c') :
    ∀ y ∈ s.exchanges.set k { x with closed := true }, Progress env c' y := by
  intro y hy
  obtain ⟨m, hm⟩ := List.mem_iff_getElem?.mp hy
  rcases getElem?_set_cases hm with ⟨rfl, rfl⟩ | ⟨hne, hm⟩
  · refine (h.progress x (List.mem_of_getElem? hx)).goes true (fun _ => rfl) ?_
    intro j other call hj hcall
    obtain ⟨call', hcall', hstays⟩ := (clusterStep_calls rfl hleft x.server).2 j call hcall
    exact ⟨call', hcall', hstays.mono fun _ => rfl⟩
  · refine (h.progress y (List.mem_of_getElem? hm)).goes y.closed id ?_
    intro j other call hj hcall
    obtain ⟨call', hcall', hstays⟩ := (clusterStep_calls rfl hleft y.server).2 j call hcall
    refine ⟨call', hcall', hstays.mono ?_⟩
    rintro ⟨delivery, heq⟩
    obtain ⟨hserver, hcall, -⟩ := ClusterEvent.replica.inj heq
    cases hcall
    exact absurd (h.once ⟨y, other, hm, rfl, hj⟩ ⟨x, pending, hx, hserver, hasked⟩) hne

theorem progress_step (h : Safe env s) (he : Effect settings env honest s s') :
    ∀ y ∈ s'.exchanges, Progress env s'.cluster y := by
  cases he with
  | arrived server request uuid =>
    refine List.forall_mem_append.mpr ⟨h.progress, List.forall_mem_singleton.mpr ?_⟩
    exact .guarded rfl rfl rfl rfl
  | answered guards hx hnew hnot =>
    obtain ⟨hasked, -, hres⟩ := (h.progress _ (List.mem_of_getElem? hx)).new hnew
    refine mem_set h.progress (.answered rfl hasked hnot rfl ?_)
    rw [Exchange.finish, hres]
    rfl
  | @asked k x pending cluster guards randoms uuid hx hnew hasked hcall =>
    obtain ⟨-, hover, hres⟩ := (h.progress x (List.mem_of_getElem? hx)).new hnew
    obtain ⟨call, hcalls, hoptions, hclient⟩ := clusterStep_arrives hcall
    have hgoes : ∀ y ∈ s.exchanges, Progress env cluster y := by
      intro y hy
      refine (h.progress y hy).goes y.closed id fun i other own _ hown =>
        ⟨own, ?_, .refl _ own⟩
      rw [hcalls]
      split
      · rename_i heq
        exact getElem?_append_old (heq ▸ hown) _
      · exact hown
    have hcall : (cluster.calls x.server)[(s.cluster.calls x.server).length]? = some call := by
      rw [hcalls, if_pos rfl]
      exact List.getElem?_concat_length
    refine mem_set hgoes (.searching rfl hasked ⟨rfl, hcall, hoptions, fun hc => ?_⟩ hover hres)
    cases hclient.symm.trans hc
  | @worked event cluster hevent hwork =>
    intro y hy
    refine (h.progress y hy).goes y.closed id fun i other own _ hown => ?_
    obtain ⟨own', hown', hstays⟩ :=
      (clusterStep_calls (arrives_false hevent) hwork y.server).2 i own hown
    refine ⟨own', hown', hstays.mono ?_⟩
    rintro ⟨delivery, rfl⟩
    cases hevent
  | settled hx hasked hopen hcall hout =>
    refine mem_set h.progress ?_
    cases h.progress _ (List.mem_of_getElem? hx) with
    | guarded hguards hnone => cases hasked.symm.trans hnone
    | answered hguards hnone => cases hasked.symm.trans hnone
    | searching hguards hhandled hown hover hres =>
      cases hasked.symm.trans hown.asked
      cases hcall.symm.trans hown.stands
      refine .settled hguards hhandled ⟨hasked, hcall, hown.options, hown.client⟩ hout rfl ?_
      rw [Exchange.finish, hres]
      rfl
    | settled hguards hhandled hown hout hover => cases hopen.symm.trans hover
  | @closed k x hx =>
    refine mem_set h.progress ?_
    exact (h.progress x (List.mem_of_getElem? hx)).goes true (fun _ => rfl)
      fun i other own _ hown => ⟨own, hown, .refl _ own⟩
  | left hx hasked hleft => exact progress_left (s := s) h hx hasked hleft

theorem safe_step (h : Safe env s) (hs : deploymentStep settings env honest s ev = some s') :
    Safe env s' :=
  have he := deploymentStep_effect hs
  have hpairs := he.pairs h
  ⟨progress_step h he, hpairs.owned h, hpairs.once h⟩

/-- The replicas work as without servers. -/
theorem cluster_step {init : Cluster}
    (h : Reachable (clusterStep settings env.platform honest) init s.cluster)
    (hs : deploymentStep settings env honest s ev = some s') :
    Reachable (clusterStep settings env.platform honest) init s'.cluster := by
  cases deploymentStep_effect hs with
  | asked _ _ _ _ _ _ hcall => exact h.next hcall
  | worked _ hwork => exact h.next hwork
  | left _ _ hleft => exact h.next hleft
  | _ => exact h

theorem safe_initial (replicas : Nat) (db : Lease.Db) :
    Safe env (Deployment.initial replicas db) where
  progress := List.forall_mem_nil _
  owned r i hi := by
    have hnone : (Cluster.initial replicas db).calls r = [] := by
      unfold Cluster.calls Cluster.initial
      dsimp only
      rw [List.getElem?_replicate]
      split <;> rfl
    have hzero : i < ((Cluster.initial replicas db).calls r).length := hi
    rw [hnone] at hzero
    exact absurd hzero (Nat.not_lt_zero i)
  once := by
    rintro k k' r i ⟨x, pending, hx, -⟩
    cases hx

theorem safe_of_reachable {replicas : Nat} {db : Lease.Db}
    (hs : Reachable (deploymentStep settings env honest) (.initial replicas db) s) :
    Safe env s ∧
      Reachable (clusterStep settings env.platform honest) (.initial replicas db) s.cluster :=
  hs.invariant (P := fun s => Safe env s ∧
      Reachable (clusterStep settings env.platform honest) (.initial replicas db) s.cluster)
    ⟨safe_initial replicas db, .refl _⟩ fun _ _ _ h hstep =>
      ⟨safe_step h.1 hstep, cluster_step h.2 hstep⟩

/-! ## What servers do -/

/-- The request has passed every guard and was validated as a search with these options. -/
def AdmittedFor (env : Environment) (x : Exchange) (options : ArticleSearchOptions) : Prop :=
  ∃ guards pending, x.guards = some guards ∧ Admitted env x.request x.id guards pending ∧
    pending.options = options

theorem Progress.admitted (h : Progress env c x) {i : Nat} {pending : Pending}
    (hasked : x.asked = some (i, pending)) : ∃ call, OwnCall c x i pending call ∧
      AdmittedFor env x call.options := by
  cases h with
  | guarded hguards hnone => cases hasked.symm.trans hnone
  | answered hguards hnone => cases hasked.symm.trans hnone
  | searching hguards hhandled hown =>
    cases hasked.symm.trans hown.asked
    exact ⟨_, hown, _, _, hguards, handle_asked hhandled, hown.options.symm⟩
  | settled hguards hhandled hown =>
    cases hasked.symm.trans hown.asked
    exact ⟨_, hown, _, _, hguards, handle_asked hhandled, hown.options.symm⟩

theorem Safe.admitted (h : Safe env s) {call : Call} {r : Nat} (hcall : call ∈ s.cluster.calls r) :
    ∃ x ∈ s.exchanges, AdmittedFor env x call.options := by
  obtain ⟨i, hi⟩ := List.mem_iff_getElem?.mp hcall
  obtain ⟨k, x, pending, hx, rfl, hasked⟩ := h.owned r i (List.getElem?_eq_some_iff.mp hi).1
  have hmem := List.mem_of_getElem? hx
  obtain ⟨own, hown, hadmitted⟩ := (h.progress x hmem).admitted hasked
  cases hi.symm.trans hown.stands
  exact ⟨x, hmem, hadmitted⟩

theorem Progress.responses_length (h : Progress env c x) : x.responses.length ≤ 1 := by
  have hmap : ∀ res : Option Response, (res.map x.sends).toList.length ≤ 1 := by
    rintro (_ | res) <;> simp
  cases h with
  | guarded _ _ _ hres => simp [hres]
  | answered _ _ _ _ hres => exact hres ▸ hmap _
  | searching _ _ _ _ hres => simp [hres]
  | settled _ _ _ _ _ hres => exact hres ▸ hmap _

/-! A request with the key and one without. -/

def sampleFramework : Framework where
  sha256 := Middleware.sampleSha256
  fresh _ _ := false
  etag _ := js "W/\"0-0\""
  parseQuery text := if text = js "query=lean" then [(js "query", .str (js "lean"))] else []
  lowerCase := Utils.toLowerCase

def sampleEnvironment : Environment where
  framework := sampleFramework
  platform := .plain
  limiter := ⟨false, false⟩
  clientApiKeys := some (js "key")
  gnewsApiKey := none
  redisUrl := none
  finalHandler _ := ⟨404, [], none⟩

def sampleRequest (key : Option HeaderValue) : HttpRequest where
  method := .get
  path := js "/api/v1/articles"
  queryText := js "query=lean"
  xRequestId := none
  xApiKey := key
  ifNoneMatch := none

def sampleUuid : Uuid where
  first := 0x30
  rest := List.replicate 35 0x30
  length := rfl
  first_hex := by decide
  rest_hex c hc := by
    rw [List.eq_of_mem_replicate hc]
    decide

def sampleGuards : Guards where
  verdict := .within
  bodyError := none
  operations := ⟨0, false, none, none, .ok []⟩

/-- Two requests, the second without a key. -/
def oneAdmitted : List DeploymentEvent :=
  let looked : ClusterEvent := .replica 0 (.callReply 0 emptyStore) (emptyResponse 0)
  let worked : ClusterEvent := .replica 0 (.jobReply 0 emptyStore) (emptyResponse 0)
  [.arrive 0 (sampleRequest (some (.str (js "key")))) sampleUuid,
    .arrive 0 (sampleRequest none) sampleUuid,
    .serve 0 sampleGuards (fun _ => 0) (js "a"), .serve 1 sampleGuards (fun _ => 0) (js "b")] ++
  (exchange (.sendLookup 0 0) 0 looked ++ [looked, worked] ++ exchange (.sendWork 0 0) 1 worked ++
    exchange (.sendWork 0 0) 2 worked ++ List.replicate 5 worked ++
    exchange (.sendWork 0 0) 3 worked ++ [worked] ++ exchange (.sendWork 0 0) 4 worked ++
    [worked] ++ exchange (.sendWork 0 0) 5 worked ++
    [ClusterEvent.replica 0 (.markSettled 0) noDelivery, .replica 0 (.deliver 0) noDelivery]).map .work ++
  [.settle 0]

def statuses (s : Deployment) : List (List Nat) := s.exchanges.map (·.responses.map (·.status))

theorem oneAdmitted_runs : ∃ s, Reachable (deploymentStep .default sampleEnvironment true)
    (.initial 1 emptyServer) s ∧ (statuses s == [[200], [401]]) = true := by
  refine Reachable.of_run _ oneAdmitted ?_
  decide +kernel

/-- **Servers only ask for admitted requests, and answer each at most once.** The
replicas work as without them. Every call of a service is the one call of one
exchange, whose own connection alone lets it go, and every search, whoever shares
it, has the options of a request that passed the rate limiter, the key gate, the
body parser and the validation. -/
theorem deployment_safe {replicas : Nat} {db : Lease.Db}
    (hs : Reachable (deploymentStep settings env honest) (.initial replicas db) s) :
    Safe env s ∧ (∀ x ∈ s.exchanges, x.responses.length ≤ 1) ∧
      Reachable (clusterStep settings env.platform honest) (.initial replicas db) s.cluster ∧
      ∀ p ∈ s.cluster.replicas, ∀ e ∈ p.entries, ∃ x ∈ s.exchanges,
        AdmittedFor env x e.options := by
  obtain ⟨hsafe, hcluster⟩ := safe_of_reachable hs
  refine ⟨hsafe, fun x hx => (hsafe.progress x hx).responses_length, hcluster, ?_⟩
  intro p hp e he
  obtain ⟨call, hcall, hoptions⟩ :=
    attributed_of_reachable hcluster p hp e.options (List.mem_map_of_mem he)
  obtain ⟨r, hr⟩ := List.mem_iff_getElem?.mp hp
  rw [← Cluster.calls_of hr] at hcall
  rw [← hoptions]
  exact hsafe.admitted hcall

theorem deployment_safe_oneAdmitted :
    ∃ s, Reachable (deploymentStep .default sampleEnvironment true) (.initial 1 emptyServer) s ∧
      statuses s = [[200], [401]] ∧ Safe sampleEnvironment s ∧
      ∀ p ∈ s.cluster.replicas, ∀ e ∈ p.entries, ∃ x ∈ s.exchanges,
        AdmittedFor sampleEnvironment x e.options := by
  obtain ⟨s, hreach, hrun⟩ := oneAdmitted_runs
  obtain ⟨hsafe, -, -, hadmitted⟩ := deployment_safe hreach
  exact ⟨s, hreach, beq_iff_eq.mp hrun, hsafe, hadmitted⟩

/-- What stands behind a response. -/
inductive Justified (env : Environment) (c : Cluster) (x : Exchange) (res : Response) : Prop
  | atOnce {guards : Guards} {sent : Response} (hguards : x.guards = some guards)
    (hnot : ∀ pending, handle env x.request x.id guards ≠ .asked pending)
    (hsent : (handle env x.request x.id guards).response env x.request x.id = some sent)
    (hres : res = x.sends sent)
  | articles {guards : Guards} {i : Nat} {pending : Pending} {call : Call}
    {result : ArticleSearchResult} {sent : Response} (hguards : x.guards = some guards)
    (hadmitted : Admitted env x.request x.id guards pending) (hown : OwnCall c x i pending call)
    (hout : call.outcome = some (.ok result))
    (hprovided : Provided c.replicas pending.options result.articles)
    (hsent : pending.settled result = .ok sent) (hres : res = x.sends sent)
  | error {guards : Guards} {i : Nat} {pending : Pending} {call : Call}
    {outcome : Except JsError ArticleSearchResult} {err : JsError} {sent : Response}
    (hguards : x.guards = some guards) (hadmitted : Admitted env x.request x.id guards pending)
    (hown : OwnCall c x i pending call) (hout : call.outcome = some outcome)
    (hfailed : outcome.bind pending.settled = .error err)
    (hsent : errorResponse x.request x.id [] (thrownOf err) = some sent) (hres : res = x.sends sent)

theorem mem_sent {x : Exchange} {sent : Option Response} {res : Response}
    (h : res ∈ (sent.map x.sends).toList) : ∃ r, sent = some r ∧ res = x.sends r := by
  cases sent with
  | none => cases h
  | some r => exact ⟨r, rfl, List.mem_singleton.mp h⟩

theorem Progress.justified (h : Progress env c x)
    (hserved : ∀ call ∈ c.calls x.server, ∀ result, call.outcome = some (.ok result) →
      Provided c.replicas call.options result.articles) {res : Response}
    (hres : res ∈ x.responses) : Justified env c x res := by
  cases h with
  | guarded _ _ _ hnone => cases hnone ▸ hres
  | searching _ _ _ _ hnone => cases hnone ▸ hres
  | answered hguards _ hnot _ hanswer =>
    obtain ⟨sent, hsent, rfl⟩ := mem_sent (hanswer ▸ hres)
    exact .atOnce hguards hnot hsent rfl
  | @settled guards i pending call outcome hguards hhandled hown hout _ hanswer =>
    obtain ⟨sent, hsent, rfl⟩ := mem_sent (hanswer ▸ hres)
    have hadmitted := handle_asked hhandled
    rcases settledResponse_eq_some hsent with ⟨result, rfl, hsettled⟩ | ⟨err, hfailed, hsent⟩
    · have hprovided := hserved call (List.mem_of_getElem? hown.stands) result hout
      rw [hown.options] at hprovided
      exact .articles hguards hadmitted hown hout hprovided hsettled rfl
    · exact .error hguards hadmitted hown hout hfailed hsent rfl

/-- **Every response is justified**: its guards decided it, or the request's controller
made it of the articles of its own call, which a provider search with the request's
own options returned, or it is the error handler's for the error of that call. -/
theorem responses_justified {replicas : Nat} {db : Lease.Db}
    (hempty : ∀ key, isEntryKey key = true → db.get key = none)
    (hs : Reachable (deploymentStep settings env honest) (.initial replicas db) s) :
    ∀ x ∈ s.exchanges, ∀ res ∈ x.responses, Justified env s.cluster x res := by
  obtain ⟨hsafe, hcluster⟩ := safe_of_reachable hs
  have hknown := clusterKnown_of_reachable hempty hcluster
  intro x hx res hres
  refine (hsafe.progress x hx).justified (fun call hcall result ho => ?_) hres
  obtain ⟨p, hp, hcall⟩ := Cluster.mem_calls hcall
  exact (hknown.served hp hcall ho).1

theorem responses_justified_oneAdmitted :
    ∃ s x res, Reachable (deploymentStep .default sampleEnvironment true)
      (.initial 1 emptyServer) s ∧ s.exchanges[0]? = some x ∧ x.responses = [res] ∧
      res.status = 200 ∧ Justified sampleEnvironment s.cluster x res := by
  obtain ⟨s, hreach, hrun⟩ := oneAdmitted_runs
  have hstatuses : statuses s = [[200], [401]] := beq_iff_eq.mp hrun
  obtain ⟨x, xs, hxs, hx, -⟩ := List.map_eq_cons_iff.mp hstatuses
  obtain ⟨res, rest, hres, hstatus, hrest⟩ := List.map_eq_cons_iff.mp hx
  have hnil : rest = [] := List.map_eq_nil_iff.mp hrest
  subst hnil
  refine ⟨s, x, res, hreach, by rw [hxs]; rfl, hres, hstatus, ?_⟩
  exact responses_justified (fun _ _ => rfl) hreach x (by rw [hxs]; exact List.mem_cons_self) res
    (by rw [hres]; exact List.mem_cons_self)

end NewsApi.App
