import NewsApi.Deployment
import NewsApi.ErrorResponses
import NewsApi.Services.Quiescence

/-! # Every exchange ends

An execution of a deployment is one of its cluster, and that is one of each
replica. Where the replicas are attended to, and servers go on with what has
been decided, every exchange is over some time. It has been answered then, unless
the error handler had nothing to send. -/
namespace NewsApi.App
open NewsApi.Async NewsApi.Text NewsApi.Types NewsApi.Config NewsApi.Errors NewsApi.Http
open NewsApi.Controllers NewsApi.Services NewsApi.Collections NewsApi.Cache NewsApi.ErrorHandling
open Filter

/-! ## The parts of a deployment -/

section
variable (settings : Settings) (env : Environment) (honest : Bool)

/-- What an event is for the cluster. -/
def inCluster (s : Deployment) : DeploymentEvent → Option ClusterEvent
  | .serve k guards randoms uuid => s.exchanges[k]?.bind fun x =>
    match handle env x.request x.id guards with
    | .asked pending =>
      some (.replica x.server (.call pending.options (some false) randoms uuid) noDelivery)
    | _ => none
  | .work event => some event
  | .close k => s.exchanges[k]?.bind fun x => x.asked.bind fun (i, _) =>
    let left := .replica x.server (.disconnect i) noDelivery
    if x.responses.isEmpty && (clusterStep settings env.platform honest s.cluster left).isSome then
      some left
    else none
  | _ => none

end

/-- What an event of the cluster is for its replica `r`. -/
def inReplica (r : Nat) (c : Cluster) : ClusterEvent → Option Event
  | .replica r' event delivery => if r' = r then some (c.answered delivery event) else none
  | _ => none

def replicaOf (r : Nat) (c : Cluster) : Process := c.replicas[r]?.getD .initial

variable {settings : Settings} {env : Environment} {honest : Bool}
variable {s s' : Deployment} {y z : Exchange} {c c' : Cluster} {k r i : Nat}

theorem inCluster_moment {ev : DeploymentEvent}
    (hs : deploymentStep settings env honest s ev = some s') :
    Moment (clusterStep settings env.platform honest) (inCluster settings env honest s ev)
      s.cluster s'.cluster := by
  cases ev with
  | arrive server request uuid =>
    obtain ⟨p, -, rfl⟩ := Option.map_eq_some_iff.mp hs
    rfl
  | serve k guards randoms uuid =>
    obtain ⟨x, hx, hs⟩ := Option.bind_eq_some_iff.mp hs
    split at hs
    · cases hs
    · simp only [serve] at hs
      simp only [inCluster, hx, Option.bind_some]
      cases hhandled : handle env x.request x.id guards with
      | asked pending =>
        rw [hhandled] at hs
        obtain ⟨cluster, hcall, rfl⟩ := Option.map_eq_some_iff.mp hs
        exact hcall
      | _ =>
        rw [hhandled] at hs
        cases hs
        rfl
  | work event =>
    simp only [deploymentStep] at hs
    split at hs
    · cases hs
    · obtain ⟨cluster, hwork, rfl⟩ := Option.map_eq_some_iff.mp hs
      exact hwork
  | settle k =>
    obtain ⟨x, hx, hs⟩ := Option.bind_eq_some_iff.mp hs
    obtain ⟨⟨i, pending⟩, hasked, hs⟩ := Option.bind_eq_some_iff.mp hs
    dsimp only at hs
    split at hs
    · cases hs
    · obtain ⟨outcome, -, rfl⟩ := Option.map_eq_some_iff.mp hs
      rfl
  | close k =>
    obtain ⟨x, hx, hs⟩ := Option.bind_eq_some_iff.mp hs
    split at hs
    · cases hs
    · cases hs
      simp only [inCluster, hx, Option.bind_some, closeConnection]
      cases x.asked with
      | none => rfl
      | some asked =>
        cases x.responses.isEmpty with
        | false => rfl
        | true =>
          dsimp only [Option.bind_some]
          cases hleft : clusterStep settings env.platform honest s.cluster
            (.replica x.server (.disconnect asked.1) noDelivery) with
          | none => rfl
          | some cluster => exact hleft

theorem inReplica_moment (r : Nat) {ev : ClusterEvent}
    (hs : clusterStep settings env.platform honest c ev = some c') :
    Moment (step settings env.platform true honest) (inReplica r c ev) (replicaOf r c)
      (replicaOf r c') := by
  rcases clusterStep_replicas hs with
    ⟨r', event, delivery, p, p', rfl, hp, hstep, rfl⟩ | ⟨hother, hsame⟩
  · simp only [inReplica, replicaOf]
    split
    · rename_i heq
      rw [← heq, hp, getElem?_set_here hp p']
      exact hstep
    · rename_i hne
      rw [List.getElem?_set_ne hne]
      rfl
  · have hnone : inReplica r c ev = none := by
      cases ev with
      | replica r' event delivery => exact absurd rfl (hother r' event delivery)
      | _ => rfl
    rw [hnone]
    exact congrArg (fun replicas => (replicas[r]?).getD .initial) hsame

theorem clusterStep_length {ev : ClusterEvent}
    (hs : clusterStep settings env.platform honest c ev = some c') :
    c'.replicas.length = c.replicas.length := by
  rcases clusterStep_replicas hs with ⟨r, event, delivery, p, p', rfl, hp, hstep, rfl⟩ | ⟨-, hsame⟩
  · exact List.length_set
  · rw [hsame]

theorem replica_reachable {replicas : Nat} {db : Lease.Db}
    (hs : Reachable (clusterStep settings env.platform honest) (.initial replicas db) c) (r : Nat) :
    Reachable (step settings env.platform true honest) .initial (replicaOf r c) := by
  refine hs.invariant (P := fun c => Reachable (step settings env.platform true honest) .initial
    (replicaOf r c)) ?_ fun c ev c' h hstep => ?_
  · have hinitial : replicaOf r (.initial replicas db) = .initial := by
      unfold replicaOf Cluster.initial
      rw [List.getElem?_replicate]
      split <;> rfl
    rw [hinitial]
    exact .refl _
  · have hmoment := inReplica_moment r hstep
    cases hev : inReplica r c ev with
    | none =>
      rw [hev] at hmoment
      rwa [show replicaOf r c' = replicaOf r c from hmoment]
    | some event =>
      rw [hev] at hmoment
      exact h.next hmoment

/-! ## Exchanges go on -/

structure Exchange.Goes (y z : Exchange) : Prop where
  server : z.server = y.server
  guards : y.guards.isSome = true → z.guards.isSome = true
  asked : ∀ a, y.asked = some a → z.asked = some a
  ended : y.ended = true → z.ended = true

theorem Exchange.Goes.refl (y : Exchange) : y.Goes y :=
  ⟨rfl, fun h => h, fun _ h => h, fun h => h⟩

theorem put_goes {m : Nat} {x x' : Exchange} (hx : s.exchanges[m]? = some x) (hgoes : x.Goes x')
    (hk : s.exchanges[k]? = some y) :
    ∃ z, (s.exchanges.set m x')[k]? = some z ∧ y.Goes z :=
  getElem?_set_goes (R := fun _ => Exchange.Goes) hx hgoes (fun _ y _ => .refl y) hk

theorem effect_goes (h : Safe env s) (he : Effect settings env honest s s')
    (hk : s.exchanges[k]? = some y) : ∃ z, s'.exchanges[k]? = some z ∧ y.Goes z := by
  cases he with
  | arrived server request uuid => exact ⟨y, getElem?_append_old hk _, .refl y⟩
  | answered guards hx hnew hnot =>
    exact put_goes hx ⟨rfl, fun _ => rfl, fun _ => id, fun _ => rfl⟩ hk
  | asked guards randoms uuid hx hnew hasked hcall =>
    obtain ⟨hnone, hover, -⟩ := (h.progress _ (List.mem_of_getElem? hx)).new hnew
    exact put_goes hx ⟨rfl, fun _ => rfl, fun a ha => (nomatch hnone.symm.trans ha), id⟩ hk
  | worked hevent hwork => exact ⟨y, hk, .refl y⟩
  | settled hx hasked hopen hcall hout =>
    exact put_goes hx ⟨rfl, id, fun _ => id, fun _ => rfl⟩ hk
  | closed hx => exact put_goes hx ⟨rfl, id, fun _ => id, id⟩ hk
  | left hx hasked hleft => exact put_goes hx ⟨rfl, id, fun _ => id, id⟩ hk

/-- Once its guards have decided. -/
theorem serve_decides {guards : Guards} {randoms : Nat → Rat} {uuid : JsString}
    (hs : deploymentStep settings env honest s (.serve k guards randoms uuid) = some s') :
    ∃ z, s'.exchanges[k]? = some z ∧ z.guards.isSome = true := by
  obtain ⟨x, hx, hs⟩ := Option.bind_eq_some_iff.mp hs
  split at hs
  · cases hs
  · unfold serve at hs
    dsimp only at hs
    split at hs
    · obtain ⟨cluster, -, rfl⟩ := Option.map_eq_some_iff.mp hs
      exact ⟨_, getElem?_set_here hx _, rfl⟩
    · cases hs
      exact ⟨_, getElem?_set_here hx _, rfl⟩

theorem settle_cases (hs : deploymentStep settings env honest s (.settle k) = some s') :
    ∃ x res, s.exchanges[k]? = some x ∧ s' = s.put k (x.finish res) := by
  obtain ⟨x, hx, hs⟩ := Option.bind_eq_some_iff.mp hs
  obtain ⟨⟨i, pending⟩, hasked, hs⟩ := Option.bind_eq_some_iff.mp hs
  dsimp only at hs
  split at hs
  · cases hs
  · obtain ⟨outcome, -, rfl⟩ := Option.map_eq_some_iff.mp hs
    exact ⟨x, _, hx, rfl⟩

/-! ## What is not answered -/

/-- An exchange that is over without a response. -/
inductive Withheld (env : Environment) (c : Cluster) (y : Exchange) : Prop
  | atOnce {guards : Guards} {headers : List (String × JsString)} {err : Thrown}
    (hguards : y.guards = some guards)
    (hfailed : handle env y.request y.id guards = .failed headers err) (hmute : Mute err)
  | settled {i : Nat} {pending : Pending} {call : Call}
    {outcome : Except JsError ArticleSearchResult} {err : JsError}
    (hown : OwnCall c y i pending call) (hout : call.outcome = some outcome)
    (hfailed : outcome.bind pending.settled = .error err) (hmute : Mute (thrownOf err))

theorem Progress.concluded (h : Progress env c y) (hover : y.ended = true) :
    y.responses.length = 1 ∨ Withheld env c y := by
  cases h with
  | guarded _ _ hopen => cases hopen.symm.trans hover
  | searching _ _ _ hopen => cases hopen.symm.trans hover
  | @answered guards hguards _ hnot _ hres =>
    rw [hres]
    cases hhandled : handle env y.request y.id guards with
    | responded res => exact .inl rfl
    | unrouted => exact .inl rfl
    | asked pending => exact absurd hhandled (hnot pending)
    | failed headers err =>
      dsimp only [Routed.response]
      cases hsent : errorResponse y.request y.id headers err with
      | some res => exact .inl rfl
      | none => exact .inr (.atOnce hguards hhandled (errorResponse_none hsent))
  | @settled guards i pending call outcome _ _ hown hout _ hres =>
    rw [hres]
    unfold settledResponse
    cases hsettled : outcome.bind pending.settled with
    | ok res => exact .inl rfl
    | error err =>
      dsimp only
      cases hsent : errorResponse y.request y.id [] (thrownOf err) with
      | some res => exact .inl rfl
      | none => exact .inr (.settled hown hout hsettled (errorResponse_none hsent))

/-! ## Executions that are attended to -/

section
variable (x : Execution (deploymentStep settings env honest))

/-- What an execution is for the replica `r`. -/
def replicaRun (r : Nat) : Execution (step settings env.platform true honest) :=
  (x.project (·.cluster) (inCluster settings env honest) fun _ _ _ => inCluster_moment).project
    (replicaOf r) (inReplica r) fun _ _ _ => inReplica_moment r

/-- The guards of a request decide, a controller goes on when its search has
settled, and the replicas are attended to. -/
structure Attentive : Prop where
  decides : ∀ t (k : Nat) y, (x.state t).exchanges[k]? = some y → y.guards = none →
    ∃ u ≥ t, ∃ guards randoms uuid, x.event u = some (.serve k guards randoms uuid)
  goesOn : ∀ t (k : Nat) y i pending call, (x.state t).exchanges[k]? = some y →
    y.asked = some (i, pending) → y.ended = false →
    ((x.state t).cluster.calls y.server)[i]? = some call → call.outcome.isSome = true →
    ∃ u ≥ t, x.event u = some (.settle k)
  replicas : ∀ r < (x.state 0).cluster.replicas.length, Diligent (replicaRun x r)

end

section
variable {x : Execution (deploymentStep settings env honest)} {t u : Nat}

theorem exchange_later (h : Safe env (x.state t)) (hk : (x.state t).exchanges[k]? = some y)
    (htu : t ≤ u) : ∃ z, (x.state u).exchanges[k]? = some z ∧ y.Goes z := by
  have hlater : Safe env (x.state u) ∧ ∃ z, (x.state u).exchanges[k]? = some z ∧ y.Goes z := by
    refine Execution.stays (P := fun s => Safe env s ∧
      ∃ z, s.exchanges[k]? = some z ∧ y.Goes z) (fun s ev s' hs hstep => ?_) htu ⟨h, y, hk, .refl y⟩
    obtain ⟨hsafe, z, hz, hgoes⟩ := hs
    obtain ⟨z', hz', hgoes'⟩ := effect_goes hsafe (deploymentStep_effect hstep) hz
    exact ⟨safe_step hsafe hstep, z', hz', hgoes'.server.trans hgoes.server,
      fun hg => hgoes'.guards (hgoes.guards hg), fun a ha => hgoes'.asked a (hgoes.asked a ha),
      fun ho => hgoes'.ended (hgoes.ended ho)⟩
  exact hlater.2

theorem replicas_length (t : Nat) :
    (x.state t).cluster.replicas.length = (x.state 0).cluster.replicas.length := by
  refine Execution.stays (P := fun s : Deployment => s.cluster.replicas.length =
    (x.state 0).cluster.replicas.length) (fun s ev s' h hs => ?_) (Nat.zero_le t) rfl
  cases deploymentStep_effect hs with
  | asked _ _ _ _ _ _ hcall => exact (clusterStep_length hcall).trans h
  | worked _ hwork => exact (clusterStep_length hwork).trans h
  | left _ _ hleft => exact (clusterStep_length hleft).trans h
  | _ => exact h

theorem calls_replicaOf (c : Cluster) (r : Nat) : c.calls r = (replicaOf r c).calls := by
  unfold Cluster.calls replicaOf
  cases c.replicas[r]? <;> rfl

/-- The search of an exchange settles. -/
theorem search_ends (hx : Attentive x)
    (hreach : ∀ r, Sound settings honest ((replicaRun x r).state t)) {i : Nat} {call : Call}
    (hcall : ((x.state t).cluster.calls r)[i]? = some call) :
    ∃ u ≥ t, ∃ call, ((x.state u).cluster.calls r)[i]? = some call ∧
      call.outcome.isSome = true := by
  have hlt : r < (x.state 0).cluster.replicas.length := by
    rw [← replicas_length t]
    by_contra hge
    have hnone : (x.state t).cluster.replicas[r]? = none :=
      List.getElem?_eq_none_iff.mpr (Nat.le_of_not_lt hge)
    unfold Cluster.calls at hcall
    rw [hnone] at hcall
    cases hcall
  rw [calls_replicaOf] at hcall
  obtain ⟨u, htu, call', result, hi, ho⟩ := calls_settle (hx.replicas r hlt) (hreach r) hcall
  exact ⟨u, htu, call', by rw [calls_replicaOf]; exact hi, by rw [ho]; rfl⟩

/-- An exchange whose guards have decided. -/
theorem decided_ends (hx : Attentive x) (hsafe : Safe env (x.state t))
    (hreach : ∀ r, Sound settings honest ((replicaRun x r).state t))
    (hk : (x.state t).exchanges[k]? = some y) (hguards : y.guards.isSome = true) :
    ∃ u ≥ t, ∃ z, (x.state u).exchanges[k]? = some z ∧ z.ended = true := by
  cases hsafe.progress y (List.mem_of_getElem? hk) with
  | guarded hnone => cases hnone ▸ hguards
  | answered _ _ _ hover => exact ⟨t, Nat.le_refl t, y, hk, hover⟩
  | settled _ _ _ _ hover => exact ⟨t, Nat.le_refl t, y, hk, hover⟩
  | @searching guards i pending call _ _ hown =>
    obtain ⟨u, htu, call', hcall', hout⟩ := search_ends hx hreach hown.stands
    obtain ⟨z, hz, hgoes⟩ := exchange_later hsafe hk htu
    cases hover : z.ended with
    | true => exact ⟨u, htu, z, hz, hover⟩
    | false =>
      obtain ⟨v, huv, hv⟩ := hx.goesOn u k z i pending call' hz (hgoes.asked _ hown.asked) hover
        (by rwa [hgoes.server]) hout
      obtain ⟨w, res, hw, hend⟩ := settle_cases (Execution.occurred hv)
      refine ⟨v + 1, by omega, w.finish res, ?_, rfl⟩
      rw [hend]
      exact getElem?_set_here hw _

/-- **Every exchange ends.** Where what is there is attended to, every request gets
its one response, unless what it ends with is an abort or an error that the
framework refuses to send. -/
theorem exchanges_end {replicas : Nat} {db : Lease.Db} (hx : Attentive x)
    (hinit : Reachable (deploymentStep settings env honest) (.initial replicas db) (x.state 0))
    (hk : (x.state t).exchanges[k]? = some y) :
    ∀ᶠ u in atTop, ∃ z, (x.state u).exchanges[k]? = some z ∧ z.ended = true ∧
      (z.responses.length = 1 ∨ Withheld env (x.state u).cluster z) := by
  have hreach : ∀ u, Reachable (deploymentStep settings env honest) (.initial replicas db)
      (x.state u) := fun u => Execution.stays (fun _ _ _ h hs => h.next hs) (Nat.zero_le u) hinit
  have hsound : ∀ u r, Sound settings honest ((replicaRun x r).state u) := fun u r =>
    sound_of_reachable (replica_reachable (safe_of_reachable (hreach u)).2 r)
  have hsafe : ∀ u, Safe env (x.state u) := fun u => (safe_of_reachable (hreach u)).1
  have hdecided : ∃ u ≥ t, ∃ z, (x.state u).exchanges[k]? = some z ∧ z.guards.isSome = true := by
    cases hguards : y.guards with
    | some guards => exact ⟨t, Nat.le_refl t, y, hk, by rw [hguards]; rfl⟩
    | none =>
      obtain ⟨u, htu, guards, randoms, uuid, hu⟩ := hx.decides t k y hk hguards
      obtain ⟨z, hz, hdecided⟩ := serve_decides (Execution.occurred hu)
      exact ⟨u + 1, by omega, z, hz, hdecided⟩
  obtain ⟨u, htu, z, hz, hguards⟩ := hdecided
  obtain ⟨v, huv, z, hz, hover⟩ := decided_ends hx (hsafe u) (hsound u) hz hguards
  refine eventually_atTop.mpr ⟨v, fun w hvw => ?_⟩
  obtain ⟨z', hz', hgoes⟩ := exchange_later (hsafe v) hz hvw
  exact ⟨z', hz', hgoes.ended hover,
    ((hsafe w).progress z' (List.mem_of_getElem? hz')).concluded (hgoes.ended hover)⟩

end

/-! A controller whose search has settled. -/

/-- All searches have settled, and one exchange of two is over. -/
def waitsToAnswer (s : Deployment) : Bool :=
  match s.exchanges, s.cluster.replicas with
  | [x, y], [p] => x.guards.isSome && y.guards.isSome && x.responses.isEmpty && y.ended &&
    p.calls.all (fun c => c.outcome.isSome && c.wait.all (·.delivered)) &&
    p.entries.all (·.settled) &&
    (deploymentStep .default sampleEnvironment true s (.settle 0)).isSome
  | _, _ => false

theorem waitsToAnswer_runs : ∃ s, Reachable (deploymentStep .default sampleEnvironment true)
    (.initial 1 emptyServer) s ∧ waitsToAnswer s = true := by
  refine Reachable.of_run _ oneAdmitted.dropLast ?_
  decide +kernel

def answering (s : Deployment) : Execution (deploymentStep .default sampleEnvironment true) :=
  .ofSchedule s fun
    | 0 => .settle 0
    | _ => .work (.replica 0 (.elapse 1) noDelivery)

section
variable {s : Deployment} {x y : Exchange} {p : Process}

theorem elapse_runs (hp : s.cluster.replicas = [p]) :
    deploymentStep .default sampleEnvironment true s (.work (.replica 0 (.elapse 1) noDelivery)) =
      some { s with cluster.replicas := [{ p with sh.clock := p.sh.clock + 1 }] } := by
  simp [deploymentStep, isServerEvent, clusterStep, hp, Cluster.answered, step]

theorem answering_later (hxy : s.exchanges = [x, y]) (hp : s.cluster.replicas = [p])
    (hstep : (deploymentStep .default sampleEnvironment true s (.settle 0)).isSome = true) :
    ∃ res, ∀ t, ((answering s).state (t + 1)).exchanges = [x.finish res, y] ∧
      ((answering s).state (t + 1)).cluster.replicas = [{ p with sh.clock := p.sh.clock + t }] := by
  obtain ⟨s1, hs1⟩ := Option.isSome_iff_exists.mp hstep
  obtain ⟨x1, res, hx1, rfl⟩ := settle_cases hs1
  rw [hxy] at hx1
  cases hx1
  refine ⟨res, fun t => ?_⟩
  induction t with
  | zero =>
    have hfirst : (answering s).state 1 = s.put 0 (x.finish res) := by
      show (deploymentStep .default sampleEnvironment true s (.settle 0)).getD s = _
      rw [hs1]
      rfl
    rw [hfirst]
    exact ⟨by rw [Deployment.put, hxy]; rfl, hp⟩
  | succ t ih =>
    have hnext : (answering s).state (t + 1 + 1) = (deploymentStep .default sampleEnvironment true
        ((answering s).state (t + 1)) (.work (.replica 0 (.elapse 1) noDelivery))).getD
          ((answering s).state (t + 1)) := rfl
    rw [hnext, elapse_runs ih.2]
    exact ⟨ih.1, rfl⟩

theorem waitsToAnswer_cases (h : waitsToAnswer s = true) : ∃ x y p, s.exchanges = [x, y] ∧
    s.cluster.replicas = [p] ∧ x.guards.isSome = true ∧ y.guards.isSome = true ∧
    x.responses = [] ∧ y.ended = true ∧
    (∀ c ∈ p.calls, c.outcome.isSome = true ∧ ∀ w, c.wait = some w → w.delivered = true) ∧
    (∀ e ∈ p.entries, e.settled = true) ∧
    (deploymentStep .default sampleEnvironment true s (.settle 0)).isSome = true := by
  unfold waitsToAnswer at h
  split at h
  · rename_i x y p hxy hp
    simp only [Bool.and_eq_true, List.all_eq_true, Option.all_eq_true, List.isEmpty_iff] at h
    obtain ⟨⟨⟨⟨⟨⟨hx, hy⟩, hres⟩, hover⟩, hcalls⟩, hentries⟩, hstep⟩ := h
    exact ⟨x, y, p, hxy, hp, hx, hy, hres, hover, hcalls, hentries, hstep⟩
  · cases h

/-- Every replica has settled all it has, and time goes by. -/
theorem answering_diligent (hp : s.cluster.replicas = [p])
    (hlater : ∀ t, ((answering s).state (t + 1)).cluster.replicas =
      [{ p with sh.clock := p.sh.clock + t }])
    (hreach : Reachable (deploymentStep .default sampleEnvironment true) (.initial 1 emptyServer) s)
    (hcalls : ∀ c ∈ p.calls, c.outcome.isSome = true ∧ ∀ w, c.wait = some w → w.delivered = true)
    (hentries : ∀ e ∈ p.entries, e.settled = true) : Diligent (replicaRun (answering s) 0) := by
  have hstate : ∀ t, ∃ ms, (replicaRun (answering s) 0).state t =
      { p with sh.clock := p.sh.clock + ms } ∧ t ≤ ms + 1 := by
    intro t
    have hview : ∀ q, ((answering s).state t).cluster.replicas = [q] →
        (replicaRun (answering s) 0).state t = q := by
      intro q hq
      show (((answering s).state t).cluster.replicas[0]?).getD .initial = q
      rw [hq]
      rfl
    cases t with
    | zero => exact ⟨0, hview p hp, Nat.zero_le 1⟩
    | succ t => exact ⟨t, hview _ (hlater t), Nat.le_refl _⟩
  have hstart : Reachable (step .default sampleEnvironment.platform true true) .initial
      ((replicaRun (answering s) 0).state 0) := replica_reachable (safe_of_reachable hreach).2 0
  have hsound : ∀ t, Sound .default true ((replicaRun (answering s) 0).state t) := fun t =>
    Execution.stays (fun _ _ _ => Sound.next) (Nat.zero_le t) (sound_of_reachable hstart)
  refine diligent_of_settled (fun t => (hsound t).ok) (fun t => ?_) (fun t => ?_) (fun t => ?_)
    fun T => ?_
  · obtain ⟨ms, hms, -⟩ := hstate t
    rw [hms]
    exact fun c hc => (hcalls c hc).1
  · obtain ⟨ms, hms, -⟩ := hstate t
    rw [hms]
    exact fun c hc => (hcalls c hc).2
  · obtain ⟨ms, hms, -⟩ := hstate t
    rw [hms]
    exact hentries
  · obtain ⟨ms, hms, hle⟩ := hstate (T + 1)
    refine ⟨T + 1, ?_⟩
    rw [hms]
    exact (Nat.le_of_succ_le_succ hle).trans (Nat.le_add_left ms _)

theorem attentive_answering (h : waitsToAnswer s = true)
    (hreach : Reachable (deploymentStep .default sampleEnvironment true) (.initial 1 emptyServer) s) :
    Attentive (answering s) := by
  obtain ⟨x, y, p, hxy, hp, hx, hy, -, hover, hcalls, hentries, hstep⟩ := waitsToAnswer_cases h
  obtain ⟨res, hlater⟩ := answering_later hxy hp hstep
  have hpair : ∀ {x' : Exchange} {k z}, [x', y][k]? = some z → k = 0 ∧ z = x' ∨ z = y := by
    intro x' k z hz
    rcases k with _ | _ | k
    · exact .inl ⟨rfl, (Option.some.inj hz).symm⟩
    · exact .inr (Option.some.inj hz).symm
    · cases hz
  have hexchanges : ∀ t (k : Nat) z, ((answering s).state t).exchanges[k]? = some z →
      z.guards.isSome = true ∧ (z.ended = true ∨ t = 0 ∧ k = 0) := by
    intro t k z hz
    cases t with
    | zero =>
      rcases hpair (hxy ▸ hz) with ⟨rfl, rfl⟩ | rfl
      · exact ⟨hx, .inr ⟨rfl, rfl⟩⟩
      · exact ⟨hy, .inl hover⟩
    | succ t =>
      rcases hpair ((hlater t).1 ▸ hz) with ⟨-, rfl⟩ | rfl
      · exact ⟨hx, .inl rfl⟩
      · exact ⟨hy, .inl hover⟩
  refine ⟨fun t k z hz hnone => ?_, fun t k z i pending call hz _ hopen _ _ => ?_, fun r hr => ?_⟩
  · cases hnone ▸ (hexchanges t k z hz).1
  · rcases (hexchanges t k z hz).2 with ho | ⟨rfl, rfl⟩
    · cases hopen.symm.trans ho
    · exact ⟨0, Nat.le_refl 0, if_pos hstep⟩
  · have hzero : r = 0 := by
      have hlt : r < s.cluster.replicas.length := hr
      rw [hp] at hlt
      exact Nat.lt_one_iff.mp hlt
    rw [hzero]
    exact answering_diligent hp (fun t => (hlater t).2) hreach hcalls hentries

end

theorem exchanges_end_answering : ∃ s x, Reachable (deploymentStep .default sampleEnvironment true)
    (.initial 1 emptyServer) s ∧ s.exchanges[0]? = some x ∧ x.responses = [] ∧
    ∀ᶠ u in atTop, ∃ z, ((answering s).state u).exchanges[0]? = some z ∧ z.ended = true ∧
      (z.responses.length = 1 ∨ Withheld sampleEnvironment ((answering s).state u).cluster z) := by
  obtain ⟨s, hreach, hwaits⟩ := waitsToAnswer_runs
  obtain ⟨x, y, p, hxy, -, -, -, hres, -⟩ := waitsToAnswer_cases hwaits
  have hx : s.exchanges[0]? = some x := by rw [hxy]; rfl
  refine ⟨s, x, hreach, hx, hres, ?_⟩
  exact exchanges_end (t := 0) (attentive_answering hwaits hreach) hreach hx

end NewsApi.App
