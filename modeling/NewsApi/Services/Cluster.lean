import NewsApi.Cache.RedisStore
import NewsApi.Services.Replicas
import NewsApi.Services.StoredValues

/-! # A cluster on one Redis

Any number of processes that send their cache and lease commands to one server.
A command is executed whenever it arrives, once, several times or never; its
sender may have given up on it long before. The server forgets entries when their
time is over and under memory pressure. Other clients, and the renewals of the
leases, do what they want to keys that do not begin with a brace, as those of
cache entries do.

What is behind an entry's key is the text of a value that a replica wrote for that
key, so the cluster refines replicas that share an ideal cache of texts. -/
namespace NewsApi.Services
open NewsApi.Async NewsApi.Text NewsApi.Types NewsApi.Config NewsApi.Errors NewsApi.Cache
open NewsApi.Runtime NewsApi.Redis NewsApi.Http NewsApi.Collections NewsApi.Providers

structure Cluster : Type 1 where
  replicas : List Process
  db : Lease.Db
  /-- commands on their way to the server, and those that have arrived -/
  sent : List ServerCommand
  /-- what the server has answered to `get`, with the keys -/
  replies : List (JsString × Option JsString)

/-- Where `get` is answered, `pick` says with which of the server's answers for
the key; `body` is the provider's response. -/
structure Delivery where
  pick : Nat
  body : JsString

inductive ClusterEvent where
  | replica (r : Nat) (event : Event) (delivery : Delivery)
  | sendLookup (r i : Nat)
  | sendWork (r n : Nat)
  | execute (k : Nat)
  | elapse (ms : Nat)
  | sweep (key : JsString)
  | evict (key : JsString)
  | foreign (key : JsString) (entry : Option (Entry JsString))

def Cluster.initial (k : Nat) (db : Lease.Db) : Cluster where
  replicas := List.replicate k .initial
  db := db
  sent := []
  replies := []

/-- `client.get(key)` fails for its connection or its deadline, never as corrupt. -/
def Cluster.answer (c : Cluster) (delivery : Delivery) (answer : (c : Command) → Option (Reply c)) :
    (c : Command) → Option (Reply c)
  | .storeGet key => (answer (.storeGet key)).bind fun
    | .error error => if isCacheCorruptionError error then none else some (.error error)
    | .ok _ => (c.replies.filter (·.1 = key))[delivery.pick]?.map fun reply => getReply reply.2
  | .axiosGet params => (answer (.axiosGet params)).map fun
    | .error error => .error error
    | .ok _ => .ok (responseData delivery.body)
  | other => answer other

def Cluster.answered (c : Cluster) (delivery : Delivery) : Event → Event
  | .callReply i answer => .callReply i (c.answer delivery answer)
  | .jobReply n answer => .jobReply n (c.answer delivery answer)
  | event => event

def Cluster.send (c : Cluster) (command : Option Command) : Option Cluster :=
  (command.bind serverCommand).map fun command => { c with sent := c.sent ++ [command] }

def Cluster.execute (c : Cluster) (command : ServerCommand) : Cluster :=
  { c with
    db := command.execute c.db
    replies := match command with
      | .get key => c.replies ++ [(key, c.db.get key)]
      | _ => c.replies }

/-- The keys of cache entries begin with a brace. -/
def isEntryKey (key : JsString) : Bool := key.head? == some 0x7B

/-- What a cache of texts holds of the values sent to it. -/
def held (replicas : List Process) : List (JsString × Json) :=
  (written replicas).map (Prod.map id reread)

/-- `articles` is `own`, or `own` with `null` in the place of its infinities. -/
def RereadOf (own articles : ArticleList) : Prop :=
  articles = own ∨ ¬IsFinite own.value ∧ articles = rereadList own

/-- The articles are, up to infinities, what a provider search with these options returned. -/
def Provided (replicas : List Process) (options : ArticleSearchOptions) (articles : ArticleList) :
    Prop :=
  ∃ own, Returned replicas options own ∧ RereadOf own articles

variable (settings : Settings) (platform : Platform) (honest : Bool)

/-- Replicas that share an ideal cache of texts. -/
def sharingStep (s : List Process) (ev : ReplicaEvent) : Option (List Process) :=
  s[ev.replica]?.bind fun p =>
    (step settings platform true honest p (ev.event.fromStore (held s) ev.pick)).map fun p' =>
      s.set ev.replica p'

def clusterStep (c : Cluster) : ClusterEvent → Option Cluster
  | .replica r event delivery => c.replicas[r]?.bind fun p =>
    (step settings platform true honest p (c.answered delivery event)).map fun p' =>
      { c with replicas := c.replicas.set r p' }
  | .sendLookup r i => c.replicas[r]?.bind fun p => p.calls[i]?.bind fun call =>
    c.send call.lookup.pending
  | .sendWork r n => c.replicas[r]?.bind fun p => p.entries[n]?.bind fun e =>
    c.send e.promise.pending
  | .execute k => c.sent[k]?.map c.execute
  | .elapse ms => some { c with db := c.db.elapse ms }
  | .sweep key => some { c with db := c.db.sweep key }
  | .evict key => some { c with db := c.db.put key none }
  | .foreign key entry =>
    if isEntryKey key then none else some { c with db := c.db.put key entry }

variable {settings platform honest}
variable {c c' : Cluster} {s s' : Process} {e : InFlightSearch} {call : Call} {n i : Nat}

/-! ## What is read back -/

section
variable {own articles : ArticleList}

theorem rereadOf_rereadList (own : ArticleList) : RereadOf own (rereadList own) := by
  by_cases hfinite : IsFinite own.value
  · exact .inl (ArticleList.ext (reread_finite _ hfinite))
  · exact .inr ⟨hfinite, rfl⟩

/-- Once is as good as twice. -/
theorem RereadOf.reread (h : RereadOf own articles) : RereadOf own (rereadList articles) := by
  rcases h with rfl | ⟨-, rfl⟩
  · exact rereadOf_rereadList articles
  · have hsame : rereadList (rereadList own) = rereadList own :=
      ArticleList.ext (reread_reread own.value)
    rw [hsame]
    exact rereadOf_rereadList own

theorem mem_held {replicas : List Process} {key : JsString} {value : Json} :
    (key, value) ∈ held replicas ↔ ∃ own, (key, own) ∈ written replicas ∧ reread own = value := by
  constructor
  · intro h
    obtain ⟨⟨k, own⟩, hw, heq⟩ := List.mem_map.mp h
    cases heq
    exact ⟨own, hw, rfl⟩
  · rintro ⟨own, hw, rfl⟩
    exact List.mem_map_of_mem hw

theorem held_mono {replicas replicas' : List Process}
    (h : ∀ x ∈ written replicas, x ∈ written replicas') : ∀ x ∈ held replicas, x ∈ held replicas' :=
  List.map_subset _ h

theorem sharingKnown_of_reachable {k : Nat} {s : List Process}
    (hs : Reachable (sharingStep settings platform honest) (List.replicate k .initial) s) :
    ReplicasKnown settings honest (· ∈ held s) s := by
  refine hs.invariant (P := fun s => ReplicasKnown settings honest (· ∈ held s) s) (.initial k)
    fun s ev s' h hs => ?_
  obtain ⟨p, hp, hs⟩ := Option.bind_eq_some_iff.mp hs
  obtain ⟨p', hstep, rfl⟩ := Option.map_eq_some_iff.mp hs
  obtain ⟨hnext, hgrow⟩ := h.next hp (event_answers _ ev.pick ev.event) hstep
  exact hnext.mono (held_mono hgrow)

theorem held_provided {W : JsString × Json → Prop} {replicas : List Process}
    (h : ReplicasKnown settings honest W replicas) {options : ArticleSearchOptions} {key : JsString}
    (hheld : (key, articles.value) ∈ held replicas)
    (hkey : key = searchCacheKey options ∨ key = staleCacheKey (searchCacheKey options)) :
    Provided replicas options articles := by
  obtain ⟨value, hw, hread⟩ := mem_held.mp hheld
  obtain ⟨-, own, rfl, -, -⟩ := written_justified h hw
  obtain rfl : rereadList own = articles := ArticleList.ext hread
  exact ⟨own, written_returned h hw hkey, rereadOf_rereadList own⟩

end

/-! ## What a search has sent -/

/-- What is known of a search whose provider answers in JSON. -/
structure Stores (platform : Platform) (e : InFlightSearch) : Prop where
  commands : e.promise.Gives ProviderParsed (Asks platform e.cacheKey) fun _ => True
  writes : ∀ w ∈ e.lo.writes, IsEntry e.cacheKey w.1 ∧ IsParsed w.2.1
  /-- a write is noted when it is sent -/
  sent : ∀ key value ttlSec, e.promise.pending = some (.storeSet key value ttlSec) →
    (key, value, ttlSec) ∈ e.lo.writes

theorem now_parsed {c : Command} {r : Reply c} {v v' : View} (h : now settings c v = some (r, v')) :
    ProviderParsed c r := by
  cases c <;> trivial

/-- The writes of a search are in order, whatever command it gives. -/
theorem writes_now {cacheKey : JsString} (c : Command) (v : View) (r : Reply c) (v' : View)
    (_ : Asks platform cacheKey c)
    (hw : ∀ w ∈ v.lo.writes, IsEntry cacheKey w.1 ∧ IsParsed w.2.1)
    (h : now settings c v = some (r, v')) :
    ProviderParsed c r ∧ ∀ w ∈ v'.lo.writes, IsEntry cacheKey w.1 ∧ IsParsed w.2.1 :=
  ⟨now_parsed h, by rw [now_writes c v r v' h]; exact hw⟩

theorem writes_issue {cacheKey : JsString} (c : Command) (v : View)
    (hc : Asks platform cacheKey c)
    (hw : ∀ w ∈ v.lo.writes, IsEntry cacheKey w.1 ∧ IsParsed w.2.1) :
    ∀ w ∈ (issue c v).lo.writes, IsEntry cacheKey w.1 ∧ IsParsed w.2.1 := by
  cases c with
  | storeSet key value ttlSec => exact List.forall_mem_cons.mpr ⟨hc, hw⟩
  | _ => exact hw

theorem mem_writes_of_sends {p : Prog Command Reply (Except JsError ArticleSearchResult)}
    {v v' : View} (hs : (jobHost settings honest).Sends (fun _ _ => True) v p v')
    {key : JsString} {value : Json} {ttlSec : Nat}
    (hp : p.pending = some (.storeSet key value ttlSec)) : (key, value, ttlSec) ∈ v'.lo.writes := by
  rcases hs with ⟨hnone, -⟩ | ⟨command, v1, hpending, -, rfl⟩
  · cases hnone.symm.trans hp
  · cases hpending.symm.trans hp
    exact List.mem_cons_self

theorem Stores.keep {sh sh' : Shared} {e' : InFlightSearch} (h : Stores platform e)
    (hk : EntryKeeps sh sh' e e') : Stores platform e' where
  commands := by
    rw [hk.cacheKey, hk.promise]
    exact h.commands
  writes := by
    rw [hk.cacheKey, show e'.lo.writes = e.lo.writes from hk.meanwhile.writes]
    exact h.writes
  sent key value ttlSec hp := by
    rw [show e'.lo.writes = e.lo.writes from hk.meanwhile.writes]
    rw [hk.promise] at hp
    exact h.sent key value ttlSec hp

theorem Stores.born (h : Born settings platform true honest s s' n e) : Stores platform e := by
  obtain ⟨sh, randoms, uuid, hstart⟩ := h.started
  have hkeeps : AsyncM.Keeps ProviderParsed (Asks platform e.cacheKey)
      (fetchArticlesFromUpstream settings platform true e.options e.cacheKey) :=
    keeps_fetchArticlesFromUpstream
  obtain ⟨hcommands, hwrites⟩ := Prog.Gives.advance (h := jobHost settings honest)
    (P := fun v => ∀ w ∈ v.lo.writes, IsEntry e.cacheKey w.1 ∧ IsParsed w.2.1)
    writes_now writes_issue hkeeps (s := ⟨sh, .start n randoms uuid⟩) nofun
  have hsends := Host.advance_sends (h := jobHost settings honest) (T := fun _ _ => True)
    (fun _ => trivial) (fun _ _ => trivial) (fun _ _ _ _ _ => trivial)
    (fetchArticlesFromUpstream settings platform true e.options e.cacheKey).run
    ⟨sh, .start n randoms uuid⟩
  rw [hstart] at hcommands hwrites hsends
  exact ⟨hcommands, hwrites, fun _ _ _ hp => mem_writes_of_sends hsends hp⟩

theorem Stores.reply {answer : (c : Command) → Option (Reply c)} {sh : Shared}
    {promise : Prog Command Reply (Except JsError ArticleSearchResult)} {v : View}
    (h : Stores platform e) (hgood : ∀ c r, answer c = some r → ProviderParsed c r)
    (hr : (jobHost settings honest).resume answer e.promise ⟨sh, e.lo⟩ = some (promise, v)) :
    Stores platform { e with lo := v.lo, promise := promise } := by
  obtain ⟨hcommands, hwrites⟩ := Prog.Gives.resume (h := jobHost settings honest)
    (P := fun v => ∀ w ∈ v.lo.writes, IsEntry e.cacheKey w.1 ∧ IsParsed w.2.1)
    writes_now writes_issue (fun c r _ _ _ ha _ => hgood c r ha)
    (fun c r v v' hw hreply => by rw [(reply_meanwhile hreply).writes]; exact hw) h.commands
    (s := ⟨sh, e.lo⟩) h.writes hr
  have hsends := Host.resume_sends (h := jobHost settings honest) (T := fun _ _ => True)
    (fun _ => trivial) (fun _ _ => trivial) (fun _ _ _ _ _ => trivial)
    (fun _ _ _ _ _ => trivial) hr
  exact ⟨hcommands, hwrites, fun _ _ _ hp => mem_writes_of_sends hsends hp⟩

theorem stores_step {W : JsString × Json → Prop} {ev : Event} (hok : s.Ok)
    (hknown : Known settings honest W s) (h : ∀ e ∈ s.entries, Stores platform e)
    (hgood : ∀ n answer, ev = .jobReply n answer → ∀ c r, answer c = some r → ProviderParsed c r)
    (hs : step settings platform true honest s ev = some s') :
    ∀ e ∈ s'.entries, Stores platform e := by
  have hevolves := step_evolves hok hknown hs
  by_cases hreply : ∃ n answer, ev = .jobReply n answer
  · obtain ⟨n, answer, rfl⟩ := hreply
    obtain ⟨e, promise, v, hn, hr, rfl⟩ := step_jobReply hs
    intro e' he'
    rcases List.mem_or_eq_of_mem_set he' with he' | rfl
    · exact h e' he'
    · exact (h e (List.mem_of_getElem? hn)).reply (hgood n answer rfl) hr
  · intro e' he'
    obtain ⟨n, hn'⟩ := List.mem_iff_getElem?.mp he'
    cases hn : s.entries[n]? with
    | none => exact .born (hevolves.born n e' hn' hn)
    | some e =>
      obtain ⟨e'', hn'', hk⟩ := hevolves.kept (fun n answer hev => hreply ⟨n, answer, hev⟩) n e hn
      cases hn'.symm.trans hn''
      exact (h e (List.mem_of_getElem? hn)).keep hk

/-- What a lookup asks of the server: its own entry. -/
def LooksUpEntry (key : JsString) : Command → Prop
  | .storeGet k | .storeDelete k => k = key
  | .storeSet _ _ _ | .tryAcquireLease _ _ _ | .releaseLease _ _ => False
  | _ => True

theorem only_lookup (key : JsString) : AsyncM.Only (LooksUpEntry key) (readCachedArticles key) := by
  have hdelete : AsyncM.Only (LooksUpEntry key) (deleteCorruptCacheEntry key) :=
    .tryCatch (x := cacheStore.delete key) (Prog.Only.command rfl) fun _ => .pure _
  refine only_withSpan trivial (.bind (.attempt (x := cacheStore.get key)
    (Prog.Only.command rfl)) fun r => ?_)
  rcases r with err | _ | cached
  · exact .ite (.bind hdelete fun _ => .pure _) (.pure _)
  · exact .pure _
  · simp only []
    split
    · exact .bind hdelete fun _ => .pure _
    · exact .pure _

theorem looks_step {W : JsString × Json → Prop} {ev : Event} (hok : s.Ok)
    (hknown : Known settings honest W s)
    (h : ∀ call ∈ s.calls, call.lookup.Only (LooksUpEntry (searchCacheKey call.options)))
    (hs : step settings platform true honest s ev = some s') :
    ∀ call ∈ s'.calls, call.lookup.Only (LooksUpEntry (searchCacheKey call.options)) := by
  have hevolves := step_evolves hok hknown hs
  intro call' hcall'
  obtain ⟨i, hi'⟩ := List.mem_iff_getElem?.mp hcall'
  cases hi : s.calls[i]? with
  | none =>
    rcases (hevolves.calls.arrived i call' hi' hi).lookup with hl | hl
    · rw [hl]
      trivial
    · rw [hl]
      exact only_lookup _
  | some call =>
    have hcall := h call (List.mem_of_getElem? hi)
    obtain ⟨call'', hi'', hm⟩ := hevolves.calls.moved i call hi
    cases hi'.symm.trans hi''
    cases hm with
    | keeps hk =>
      rw [hk.options, hk.lookup]
      exact hcall
    | looked answer v hev hr hlo ho ht =>
      rw [ho]
      exact hcall.resume hr

/-! ## What the server holds -/

/-- The text of a value that a replica wrote for the key. -/
def TextOf (replicas : List Process) (key raw : JsString) : Prop :=
  ∃ value, (key, value) ∈ written replicas ∧ IsParsed value ∧ stringify (ofJson value) = some raw

/-- A command that a replica may have sent. -/
def CommandOk (replicas : List Process) : ServerCommand → Prop
  | .get key => isEntryKey key = true
  | .setex key _ text => TextOf replicas key text
  | .setPxNx key _ _ => isEntryKey key = false
  | .del _ | .evalRelease _ _ => True

variable (settings platform honest) in
/-- What every step of a cluster of `k` replicas keeps. -/
structure ClusterKnown (k : Nat) (c : Cluster) : Prop where
  /-- the replicas might as well share an ideal cache -/
  replicas : Reachable (sharingStep settings platform honest) (List.replicate k .initial) c.replicas
  stores : ∀ p ∈ c.replicas, ∀ e ∈ p.entries, Stores platform e
  looks : ∀ p ∈ c.replicas, ∀ call ∈ p.calls,
    call.lookup.Only (LooksUpEntry (searchCacheKey call.options))
  sent : ∀ command ∈ c.sent, CommandOk c.replicas command
  db : ∀ key raw, isEntryKey key = true → c.db.get key = some raw → TextOf c.replicas key raw
  replies : ∀ key raw, (key, some raw) ∈ c.replies → TextOf c.replicas key raw

theorem isEntryKey_of_isEntry {options : ArticleSearchOptions} {key : JsString}
    (h : IsEntry (searchCacheKey options) key) : isEntryKey key = true := by
  rcases h with rfl | rfl <;> rfl

theorem isEntryKey_leaseKey (k : JsString) : isEntryKey (leaseKey platform k) = false := rfl

theorem CommandOk.mono {replicas replicas' : List Process} {command : ServerCommand}
    (hgrow : ∀ x ∈ written replicas, x ∈ written replicas') (h : CommandOk replicas command) :
    CommandOk replicas' command := by
  cases command with
  | setex key ttlSec text =>
    obtain ⟨value, hw, hvalue⟩ := h
    exact ⟨value, hgrow _ hw, hvalue⟩
  | _ => exact h

/-- What a search may ask for is in order once it is sent. -/
theorem commandOk_of_asks {replicas : List Process} {options : ArticleSearchOptions}
    {command : Command} {sent : ServerCommand} (h : Asks platform (searchCacheKey options) command)
    (hwritten : ∀ key value ttlSec, command = .storeSet key value ttlSec →
      (key, value) ∈ written replicas)
    (hsent : serverCommand command = some sent) : CommandOk replicas sent := by
  cases command with
  | storeGet key =>
    cases hsent
    exact isEntryKey_of_isEntry h
  | storeSet key value ttlSec =>
    obtain ⟨text, htext, rfl⟩ := Option.map_eq_some_iff.mp hsent
    exact ⟨value, hwritten key value ttlSec rfl, h.2, htext⟩
  | storeDelete key => cases hsent; trivial
  | tryAcquireLease key owner ttlMs =>
    cases hsent
    rw [show key = leaseKey platform (searchCacheKey options) from h]
    exact isEntryKey_leaseKey _
  | releaseLease key owner => cases hsent; trivial
  | _ => cases hsent

theorem commandOk_of_looks {replicas : List Process} {options : ArticleSearchOptions}
    {command : Command} {sent : ServerCommand} (h : LooksUpEntry (searchCacheKey options) command)
    (hsent : serverCommand command = some sent) : CommandOk replicas sent := by
  cases command with
  | storeGet key =>
    cases hsent
    exact isEntryKey_of_isEntry (.inl h)
  | storeDelete key => cases hsent; trivial
  | storeSet | tryAcquireLease | releaseLease => exact h.elim
  | _ => cases hsent

/-! ## What is answered was written -/

section
variable {delivery : Delivery} {answer : (c : Command) → Option (Reply c)}

theorem getReply_textOf {replicas : List Process} {key raw : JsString}
    (h : TextOf replicas key raw) :
    ∃ value, (key, value) ∈ written replicas ∧ getReply (some raw) = .ok (some (reread value)) := by
  obtain ⟨value, hw, hparsed, htext⟩ := h
  exact ⟨value, hw, getReply_text hparsed htext⟩

theorem answer_held (hreplies : ∀ key raw, (key, some raw) ∈ c.replies →
      TextOf c.replicas key raw) {key : JsString} {value : Json}
    (h : c.answer delivery answer (.storeGet key) = some (.ok (some value))) :
    (key, value) ∈ held c.replicas := by
  obtain ⟨r, -, hr⟩ := Option.bind_eq_some_iff.mp h
  cases r with
  | error error =>
    simp only at hr
    split at hr <;> cases hr
  | ok found =>
    obtain ⟨⟨k, raw⟩, hget, hreply⟩ := Option.map_eq_some_iff.mp hr
    obtain ⟨hmem, hkey⟩ := List.mem_filter.mp (List.mem_of_getElem? hget)
    obtain rfl : k = key := of_decide_eq_true hkey
    cases raw with
    | none => cases hreply
    | some raw =>
      obtain ⟨own, hw, hown⟩ := getReply_textOf (hreplies k raw hmem)
      cases hown.symm.trans hreply
      exact mem_held.mpr ⟨own, hw, rfl⟩

theorem answer_parsed (command : Command) (r : Reply command)
    (h : c.answer delivery answer command = some r) : ProviderParsed command r := by
  cases command with
  | axiosGet params =>
    obtain ⟨found, -, rfl⟩ := Option.map_eq_some_iff.mp h
    cases found with
    | error error => trivial
    | ok data => exact responseData_parsed delivery.body
  | _ => trivial

end

/-- An ideal cache can answer the same. -/
theorem fromStore_same {entries : List (JsString × Json)}
    {answer : (c : Command) → Option (Reply c)} {pending : Option Command}
    (h : ∀ key value, answer (.storeGet key) = some (.ok (some value)) → (key, value) ∈ entries) :
    ∃ pick, ∀ command, pending = some command →
      fromStore entries pick answer command = answer command := by
  by_cases hfound : ∃ key value, pending = some (.storeGet key) ∧
      answer (.storeGet key) = some (.ok (some value))
  · obtain ⟨key, value, rfl, hanswer⟩ := hfound
    have hmem : (key, value) ∈ entries.filter (·.1 = key) :=
      List.mem_filter.mpr ⟨h key value hanswer, by simp⟩
    obtain ⟨pick, hpick⟩ := List.mem_iff_getElem?.mp hmem
    refine ⟨pick, fun command hcommand => ?_⟩
    cases hcommand
    simp only [fromStore, hanswer, Option.bind_some, hpick, Option.map_some]
  · refine ⟨0, fun command hcommand => ?_⟩
    cases command with
    | storeGet key =>
      cases hanswer : answer (.storeGet key) with
      | none => simp only [fromStore, hanswer, Option.bind_none]
      | some r =>
        rcases r with error | _ | value
        · simp only [fromStore, hanswer, Option.bind_some]
        · simp only [fromStore, hanswer, Option.bind_some]
        · exact absurd ⟨key, value, hcommand, hanswer⟩ hfound
    | _ => rfl

/-- One event of a replica is an event of the replicas that share an ideal cache. -/
theorem step_fromStore {entries : List (JsString × Json)} {ev : Event}
    (h : ∀ answer, (∃ i, ev = .callReply i answer) ∨ (∃ n, ev = .jobReply n answer) →
      ∀ key value, answer (.storeGet key) = some (.ok (some value)) → (key, value) ∈ entries) :
    ∃ pick, step settings platform true honest s (ev.fromStore entries pick) =
      step settings platform true honest s ev := by
  cases ev with
  | callReply i answer =>
    obtain ⟨pick, hsame⟩ : ∃ pick, ∀ command,
        s.calls[i]?.bind (·.lookup.pending) = some command →
          fromStore entries pick answer command = answer command :=
      fromStore_same (h answer (.inl ⟨i, rfl⟩))
    refine ⟨pick, ?_⟩
    simp only [Event.fromStore, step]
    refine Option.bind_congr fun call hi => ?_
    rw [hi, Option.bind_some] at hsame
    rw [Host.resume_congr hsame]
  | jobReply n answer =>
    obtain ⟨pick, hsame⟩ : ∃ pick, ∀ command,
        s.entries[n]?.bind (·.promise.pending) = some command →
          fromStore entries pick answer command = answer command :=
      fromStore_same (h answer (.inr ⟨n, rfl⟩))
    refine ⟨pick, ?_⟩
    simp only [Event.fromStore, step]
    refine Option.bind_congr fun e hn => ?_
    rw [hn, Option.bind_some] at hsame
    rw [Host.resume_congr hsame]
  | _ => exact ⟨0, rfl⟩

/-! ## Every step -/

theorem ClusterKnown.replica {k r : Nat} {event : Event} {delivery : Delivery}
    (h : ClusterKnown settings platform honest k c)
    (hs : clusterStep settings platform honest c (.replica r event delivery) = some c') :
    ClusterKnown settings platform honest k c' := by
  obtain ⟨p, hp, hs⟩ := Option.bind_eq_some_iff.mp hs
  obtain ⟨p', hstep, rfl⟩ := Option.map_eq_some_iff.mp hs
  have hreplicas := sharingKnown_of_reachable h.replicas
  obtain ⟨hok, hknown⟩ := hreplicas p (List.mem_of_getElem? hp)
  obtain ⟨pick, hsame⟩ : ∃ pick, step settings platform true honest p
      ((c.answered delivery event).fromStore (held c.replicas) pick) =
        step settings platform true honest p (c.answered delivery event) := by
    refine step_fromStore ?_
    rintro answer (⟨i, heq⟩ | ⟨n, heq⟩) key value hanswer
    · cases event <;> cases heq
      exact answer_held h.replies hanswer
    · cases event <;> cases heq
      exact answer_held h.replies hanswer
  have hreplica : sharingStep settings platform honest c.replicas
      ⟨r, c.answered delivery event, pick⟩ = some (c.replicas.set r p') := by
    simp only [sharingStep, hp, Option.bind_some, hsame, hstep, Option.map_some]
  have hgrow := (hreplicas.next hp (event_answers _ pick _) (hsame.trans hstep)).2
  have hmem := List.mem_of_getElem? hp
  exact {
    replicas := h.replicas.next hreplica
    stores := mem_set h.stores (stores_step hok hknown (h.stores p hmem) (by
      intro n answer heq command r' hr'
      cases event <;> cases heq
      exact answer_parsed command r' hr') hstep)
    looks := mem_set h.looks (looks_step hok hknown (h.looks p hmem) hstep)
    sent := fun command hcommand => (h.sent command hcommand).mono hgrow
    db := fun key raw hkey hget => (h.db key raw hkey hget).imp fun _ hw => hw.imp_left (hgrow _)
    replies := fun key raw hreply => (h.replies key raw hreply).imp fun _ hw =>
      hw.imp_left (hgrow _) }

/-- A command is sent. -/
theorem ClusterKnown.send {k : Nat} {command : Option Command}
    (h : ClusterKnown settings platform honest k c)
    (hok : ∀ x sent, command = some x → serverCommand x = some sent → CommandOk c.replicas sent)
    (hs : c.send command = some c') : ClusterKnown settings platform honest k c' := by
  obtain ⟨sent, hsent, rfl⟩ := Option.map_eq_some_iff.mp hs
  obtain ⟨x, hx, hsent⟩ := Option.bind_eq_some_iff.mp hsent
  refine { h with sent := List.forall_mem_append.mpr ⟨h.sent, ?_⟩ }
  exact List.forall_mem_singleton.mpr (hok x sent hx hsent)

theorem ClusterKnown.execute {k : Nat} {command : ServerCommand}
    (h : ClusterKnown settings platform honest k c) (hmem : command ∈ c.sent) :
    ClusterKnown settings platform honest k (c.execute command) := by
  have hcommand := h.sent command hmem
  refine { h with db := fun key raw hkey hget => ?_, replies := fun key raw hreply => ?_ }
  · have hlease : ∀ k owner ttlMs, command = .setPxNx k owner ttlMs → key ≠ k := by
      rintro k owner ttlMs rfl rfl
      cases hkey.symm.trans hcommand
    rcases execute_get hlease hget with hget | ⟨ttlSec, rfl⟩
    · exact h.db key raw hkey hget
    · exact hcommand
  · unfold Cluster.execute at hreply
    cases command with
    | get k =>
      rcases List.mem_append.mp hreply with hreply | hreply
      · exact h.replies key raw hreply
      · obtain ⟨rfl, hget⟩ := Prod.mk.inj (List.mem_singleton.mp hreply)
        exact h.db key raw hcommand hget.symm
    | _ => exact h.replies key raw hreply

/-- The server changes, and what it has for entries does not grow. -/
theorem ClusterKnown.forget {k : Nat} {db : Lease.Db}
    (h : ClusterKnown settings platform honest k c)
    (hdb : ∀ key raw, isEntryKey key = true → db.get key = some raw → c.db.get key = some raw) :
    ClusterKnown settings platform honest k { c with db := db } :=
  { h with db := fun key raw hkey hget => h.db key raw hkey (hdb key raw hkey hget) }

theorem get_of_lookup {db db' : Lease.Db} {key raw : JsString}
    (h : ∀ e, db'.lookup key = some e → db.lookup key = some e) (hget : db'.get key = some raw) :
    db.get key = some raw := by
  obtain ⟨e, he, rfl⟩ := Option.map_eq_some_iff.mp hget
  exact Option.map_eq_some_iff.mpr ⟨e, h e he, rfl⟩

theorem clusterKnown_step {k : Nat} {ev : ClusterEvent}
    (h : ClusterKnown settings platform honest k c)
    (hs : clusterStep settings platform honest c ev = some c') :
    ClusterKnown settings platform honest k c' := by
  have hknown := sharingKnown_of_reachable h.replicas
  cases ev with
  | replica r event delivery => exact h.replica hs
  | sendLookup r i =>
    obtain ⟨p, hp, hs⟩ := Option.bind_eq_some_iff.mp hs
    obtain ⟨call, hi, hs⟩ := Option.bind_eq_some_iff.mp hs
    refine h.send (fun x sent hx hsent => ?_) hs
    exact commandOk_of_looks ((h.looks p (List.mem_of_getElem? hp) call
      (List.mem_of_getElem? hi)).pending hx) hsent
  | sendWork r n =>
    obtain ⟨p, hp, hs⟩ := Option.bind_eq_some_iff.mp hs
    obtain ⟨e, hn, hs⟩ := Option.bind_eq_some_iff.mp hs
    have hmem := List.mem_of_getElem? hp
    have he := List.mem_of_getElem? hn
    have hstores := h.stores p hmem e he
    obtain ⟨hok, hentries⟩ := hknown p hmem
    refine h.send (fun x sent hx hsent => ?_) hs
    have hasks := hstores.commands.pending hx
    rw [(hok.entries e he).key] at hasks
    refine commandOk_of_asks hasks (fun key value ttlSec heq => ?_) hsent
    refine List.mem_flatMap.mpr ⟨p, hmem, (mem_written hentries).mpr ⟨e, he, _,
      hstores.sent key value ttlSec (heq ▸ hx), rfl⟩⟩
  | execute n =>
    obtain ⟨command, hn, rfl⟩ := Option.map_eq_some_iff.mp hs
    exact h.execute (List.mem_of_getElem? hn)
  | elapse ms =>
    cases hs
    exact h.forget fun key raw _ => get_of_lookup fun e => Keyspace.lookup_of_elapse
  | sweep k =>
    cases hs
    exact h.forget fun key raw _ => get_of_lookup fun e he => by rwa [Keyspace.lookup_sweep] at he
  | evict k =>
    cases hs
    refine h.forget fun key raw _ => get_of_lookup fun e he => ?_
    by_cases hk : key = k
    · subst hk
      cases (Keyspace.lookup_put_none c.db key).symm.trans he
    · rwa [Keyspace.lookup_put_ne _ _ hk] at he
  | foreign k entry =>
    simp only [clusterStep] at hs
    split at hs
    · cases hs
    · rename_i hforeign
      cases hs
      refine h.forget fun key raw hkey => get_of_lookup fun e he => ?_
      have hne : key ≠ k := by
        rintro rfl
        exact hforeign hkey
      rwa [Keyspace.lookup_put_ne _ _ hne] at he

theorem clusterKnown_of_reachable {k : Nat} {db : Lease.Db}
    (hempty : ∀ key, isEntryKey key = true → db.get key = none)
    (hs : Reachable (clusterStep settings platform honest) (.initial k db) c) :
    ClusterKnown settings platform honest k c := by
  refine hs.invariant ?_ fun _ _ _ => clusterKnown_step
  have hinitial : ∀ p ∈ List.replicate k Process.initial, p = .initial :=
    fun p hp => (List.mem_replicate.mp hp).2
  exact {
    replicas := .refl _
    stores := fun p hp e he => by rw [hinitial p hp] at he; cases he
    looks := fun p hp call hcall => by rw [hinitial p hp] at hcall; cases hcall
    sent := nofun
    db := fun key raw hkey hget => by cases (hempty key hkey).symm.trans hget
    replies := nofun }

/-! ## What a cluster serves -/

theorem ClusterKnown.served {k : Nat} {p : Process} {result : ArticleSearchResult}
    (h : ClusterKnown settings platform honest k c) (hp : p ∈ c.replicas) (hcall : call ∈ p.calls)
    (ho : call.outcome = some (.ok result)) :
    Provided c.replicas call.options result.articles ∧ Truthful p call result := by
  have hknown := sharingKnown_of_reachable h.replicas
  exact hknown.result (P := Provided c.replicas) (fun hreturned => ⟨_, hreturned, .inl rfl⟩)
    (held_provided hknown) hp hcall ho

/-- **The cluster refines the replicas with an ideal cache.** Every result is, up to
infinities, an article list that a provider search with the same options returned
to one of the replicas, and its label is truthful. -/
theorem cluster_provenance {k : Nat} {db : Lease.Db}
    (hempty : ∀ key, isEntryKey key = true → db.get key = none)
    (hs : Reachable (clusterStep settings platform honest) (.initial k db) c) :
    Reachable (sharingStep settings platform honest) (List.replicate k .initial) c.replicas ∧
      ∀ p ∈ c.replicas, ∀ call ∈ p.calls, ∀ result, call.outcome = some (.ok result) →
        Provided c.replicas call.options result.articles ∧ Truthful p call result := by
  have h := clusterKnown_of_reachable hempty hs
  exact ⟨h.replicas, fun p hp call hcall result ho => h.served hp hcall ho⟩

/-- **Nothing that the cluster stored is read as corrupt.** Whatever the server holds
or has answered for an entry is the text of an article list that a replica wrote
there, and the store reads it, up to infinities, as that list. -/
theorem cluster_readsBack {k : Nat} {db : Lease.Db}
    (hempty : ∀ key, isEntryKey key = true → db.get key = none)
    (hs : Reachable (clusterStep settings platform honest) (.initial k db) c)
    {key raw : JsString} (hraw : isEntryKey key = true ∧ c.db.get key = some raw ∨
      (key, some raw) ∈ c.replies) :
    ∃ own articles, (key, own.value) ∈ written c.replicas ∧ RereadOf own articles ∧
      getReply (some raw) = .ok (some articles.value) := by
  have h := clusterKnown_of_reachable hempty hs
  have htext : TextOf c.replicas key raw := by
    rcases hraw with ⟨hkey, hget⟩ | hreply
    · exact h.db key raw hkey hget
    · exact h.replies key raw hreply
  obtain ⟨value, hw, hread⟩ := getReply_textOf htext
  obtain ⟨-, own, rfl, -, -⟩ := written_justified (sharingKnown_of_reachable h.replicas) hw
  exact ⟨own, rereadList own, hw, rereadOf_rereadList own, hread⟩

/-! ## A sample run -/

/-- A response without articles; `get` is answered with the server's first answer,
or with the one at `pick`. -/
def emptyResponse (pick : Nat) : Delivery := ⟨pick, js "\x7b\"articles\":[]\x7d"⟩

def emptyServer : Lease.Db := ⟨0, fun _ => none⟩

/-- The command of a lookup or of a search is sent, executed and answered. -/
def exchange (send : ClusterEvent) (k : Nat) (answered : ClusterEvent) : List ClusterEvent :=
  [send, .execute k, answered]

/-- The first replica loads and stores what the second then finds at the server. -/
def storeThenFind : List ClusterEvent :=
  let looked (r pick : Nat) : ClusterEvent := .replica r (.callReply 0 emptyStore) (emptyResponse pick)
  let worked : ClusterEvent := .replica 0 (.jobReply 0 emptyStore) (emptyResponse 0)
  [.replica 0 (sampleCall none) (emptyResponse 0)] ++ exchange (.sendLookup 0 0) 0 (looked 0 0) ++
    [looked 0 0, worked] ++ exchange (.sendWork 0 0) 1 worked ++
    exchange (.sendWork 0 0) 2 worked ++ List.replicate 5 worked ++
    exchange (.sendWork 0 0) 3 worked ++ [worked] ++ exchange (.sendWork 0 0) 4 worked ++
    [worked] ++ exchange (.sendWork 0 0) 5 worked ++
    [.replica 1 (sampleCall none) (emptyResponse 0)] ++
    exchange (.sendLookup 1 0) 6 (looked 1 2) ++ [looked 1 0]

/-- The second replica's call found the entry. -/
def foundByOther (c : Cluster) : Bool :=
  match (c.replicas[1]?.bind fun p => p.calls[0]?.bind Call.outcome) with
  | some (.ok result) => result.cache == .hit
  | _ => false

theorem storeThenFind_runs : ∃ c, Reachable (clusterStep .default .plain true)
    (.initial 2 emptyServer) c ∧ (foundByOther c && c.replies.any (·.2.isSome)) = true := by
  refine Reachable.of_run _ storeThenFind ?_
  decide +kernel

theorem cluster_provenance_storeThenFind :
    ∃ c p call result, Reachable (clusterStep .default .plain true) (.initial 2 emptyServer) c ∧
      c.replicas[1]? = some p ∧ p.calls[0]? = some call ∧ call.outcome = some (.ok result) ∧
      result.cache = .hit ∧ Provided c.replicas call.options result.articles := by
  obtain ⟨c, hreach, hrun⟩ := storeThenFind_runs
  have hfound := (Bool.and_eq_true_iff.mp hrun).1
  unfold foundByOther at hfound
  split at hfound
  · rename_i result hout
    obtain ⟨p, hp, hout⟩ := Option.bind_eq_some_iff.mp hout
    obtain ⟨call, hcall, ho⟩ := Option.bind_eq_some_iff.mp hout
    have hserved := (cluster_provenance (fun _ _ => rfl) hreach).2 p (List.mem_of_getElem? hp)
      call (List.mem_of_getElem? hcall) result ho
    exact ⟨c, p, call, result, hreach, hp, hcall, ho, by simpa using hfound, hserved.1⟩
  · cases hfound

theorem cluster_readsBack_storeThenFind :
    ∃ c key raw own articles,
      Reachable (clusterStep .default .plain true) (.initial 2 emptyServer) c ∧
      (key, some raw) ∈ c.replies ∧ (key, own.value) ∈ written c.replicas ∧
      RereadOf own articles ∧ getReply (some raw) = .ok (some articles.value) := by
  obtain ⟨c, hreach, hrun⟩ := storeThenFind_runs
  obtain ⟨⟨key, raw⟩, hmem, hsome⟩ := List.any_eq_true.mp (Bool.and_eq_true_iff.mp hrun).2
  obtain ⟨raw, rfl⟩ := Option.isSome_iff_exists.mp hsome
  obtain ⟨own, articles, hwritten, hreread, hread⟩ :=
    cluster_readsBack (fun _ _ => rfl) hreach (.inr hmem)
  exact ⟨c, key, raw, own, articles, hreach, hmem, hwritten, hreread, hread⟩

end NewsApi.Services
