import Mathlib.Logic.Function.Basic
import NewsApi.Async.Run
import NewsApi.Runtime.JobHost
import NewsApi.Services.NewsService

/-! # The searches of one process

Any number of calls, the in-flight searches they share, and the map that finds
an in-flight search by its key. Every event is one synchronous step: a call
arrives, an answer arrives for the lookup of a call or for the work of an
in-flight search, a promise calls back, a signal aborts, a timer fires, a lease
renewal is answered, time passes. An answer may be anything a cache store, a
lease store or a provider may answer.

The callback that marks an in-flight search as settled is registered before
any waiter's, so it runs first. The order of the waiters' callbacks is open. -/
namespace NewsApi.Services
open NewsApi.Async NewsApi.Text NewsApi.Types NewsApi.Config NewsApi.Errors
open NewsApi.Runtime

structure InFlightSearch : Type 1 where
  cacheKey : JsString
  options : ArticleSearchOptions
  /-- the state of its work; `client` is `controller.signal.aborted` -/
  lo : Local
  promise : Prog Command Reply (Except JsError ArticleSearchResult)
  subscribers : Int
  settled : Bool
  /-- history only: the call that created it, and whether its signal was already aborted -/
  creator : Nat
  creatorAborted : Bool

/-- A promise of `waitForInFlightSearch`. -/
structure Wait where
  entry : Nat
  existing : Bool
  released : Bool
  /-- the abort listener is registered -/
  listening : Bool
  /-- the in-flight search's promise has called back -/
  delivered : Bool
  /-- history only: the controller was already aborted -/
  foundAborted : Bool

/-- A call of `searchArticles`; `lo.client` is its own signal. -/
structure Call : Type 1 where
  options : ArticleSearchOptions
  hasSignal : Bool
  lo : Local
  lookup : Prog Command Reply (Except JsError (Option ArticleSearchResult))
  wait : Option Wait
  outcome : Option (Except JsError ArticleSearchResult)

structure Process : Type 1 where
  sh : Shared
  entries : List InFlightSearch
  inFlightSearches : JsString → Option Nat
  calls : List Call

inductive Event where
  | call (options : ArticleSearchOptions) (signal : Option Bool) (randoms : Nat → Rat)
      (uuid : JsString)
  | callReply (i : Nat) (answer : (c : Command) → Option (Reply c))
  | jobReply (n : Nat) (answer : (c : Command) → Option (Reply c))
  | markSettled (n : Nat)
  | deliver (i : Nat)
  | disconnect (i : Nat)
  | shutdown
  | deadline (n : Nat)
  | renewed (n : Nat) (result : Except JsError Bool)
  | elapse (ms : Nat)

def Process.initial : Process where
  sh := .initial
  entries := []
  inFlightSearches _ := none
  calls := []

/-! ## Waiting -/

/-- A promise settles once. -/
def Call.settle (c : Call) (r : Except JsError ArticleSearchResult) : Call :=
  { c with outcome := c.outcome.or (some r) }

/-- One subscriber less; the last one aborts a search that has not settled. -/
def InFlightSearch.unsubscribe (e : InFlightSearch) : InFlightSearch :=
  let e := { e with subscribers := e.subscribers - 1 }
  if !e.settled && e.subscribers == 0 then { e with lo.client := true } else e

def release (w : Wait) (e : InFlightSearch) : Wait × InFlightSearch :=
  if w.released then (w, e)
  else ({ w with released := true, listening := false }, e.unsubscribe)

def onAbort (c : Call) (w : Wait) (e : InFlightSearch) : Call × InFlightSearch :=
  let (w, e) := release w e
  ({ c with wait := some w }.settle (.error .requestAborted), e)

/-- The callback of the in-flight search's promise. -/
def deliver (c : Call) (w : Wait) (e : InFlightSearch) (r : Except JsError ArticleSearchResult) :
    Call × InFlightSearch :=
  let (w, e) := release w e
  ({ c with wait := some { w with delivered := true } }.settle (r.map (callResult w.existing)), e)

/-- Both checks of the signal are in the same synchronous step, so the second
one, inside the promise, never finds it aborted. -/
def waitForInFlightSearch (c : Call) (n : Nat) (existing : Bool) (e : InFlightSearch) :
    Call × InFlightSearch :=
  if c.lo.client then (c.settle (.error .requestAborted), e)
  else
    ({ c with wait := some {
        entry := n
        existing := existing
        released := false
        listening := c.hasSignal
        delivered := false
        foundAborted := e.lo.client } },
      { e with subscribers := e.subscribers + 1 })

/-! ## Steps -/

variable (settings : Settings) (platform : Platform) (leases honest : Bool)

def Process.setCall (s : Process) (i : Nat) (c : Call) : Process :=
  { s with calls := s.calls.set i c }

def Process.setEntry (s : Process) (n : Nat) (e : InFlightSearch) : Process :=
  { s with entries := s.entries.set n e }

def markInFlightSettled (s : Process) (n : Nat) (e : InFlightSearch) : Process :=
  let s := s.setEntry n { e with settled := true }
  if s.inFlightSearches e.cacheKey = some n then
    { s with inFlightSearches := Function.update s.inFlightSearches e.cacheKey none }
  else s

/-- The new entry is the last one. Its work runs up to the first suspension. -/
def createInFlightSearch (s : Process) (c : Call) (cacheKey : JsString) :
    Process × InFlightSearch :=
  let (promise, v) := (jobHost settings honest).advance
    (fetchArticlesFromUpstream settings platform leases c.options cacheKey).run
    ⟨s.sh, .start s.entries.length c.lo.randoms c.lo.uuid⟩
  let e : InFlightSearch := {
    cacheKey := cacheKey
    options := c.options
    lo := v.lo
    promise := promise
    subscribers := 0
    settled := false
    creator := c.lo.id
    creatorAborted := c.lo.client }
  ({ s with
      sh := v.sh
      entries := s.entries ++ [e]
      inFlightSearches := Function.update s.inFlightSearches cacheKey (some s.entries.length) }, e)

/-- `inFlightSearches.get(cacheKey)`, and what `searchArticles` does with it. -/
def joinInFlightSearch (s : Process) (i : Nat) (c : Call) : Process :=
  let cacheKey := searchCacheKey c.options
  match (s.inFlightSearches cacheKey).bind fun n => s.entries[n]?.map (n, ·) with
  | some (n, e) =>
    let (c, e) := waitForInFlightSearch c n true e
    (s.setCall i c).setEntry n e
  | none =>
    let n := s.entries.length
    let (s, e) := createInFlightSearch settings platform leases honest s c cacheKey
    let (c, e) := waitForInFlightSearch c n false e
    (s.setCall i c).setEntry n e

/-- A call whose lookup has just run; it goes on if that has ended. -/
def continueCall (s : Process) (i : Nat) (c : Call) : Process :=
  match c.lookup with
  | .pure (.error e) => s.setCall i (c.settle (.error e))
  | .pure (.ok (some cached)) => s.setCall i (c.settle (.ok cached))
  | .pure (.ok none) => joinInFlightSearch settings platform leases honest s i c
  | _ => s.setCall i c

/-- A call up to its first suspension. -/
def startCall (sh : Shared) (i : Nat) (options : ArticleSearchOptions) (signal : Option Bool)
    (randoms : Nat → Rat) (uuid : JsString) : Call × Shared :=
  let (lookup, v) := (jobHost settings honest).advance (lookupSearch options).run
    ⟨sh, { Local.start i randoms uuid with client := signal.getD false }⟩
  ({
    options := options
    hasSignal := signal.isSome
    lo := v.lo
    lookup := lookup
    wait := none
    outcome := none }, v.sh)

def searchArticles (s : Process) (options : ArticleSearchOptions) (signal : Option Bool)
    (randoms : Nat → Rat) (uuid : JsString) : Process :=
  let (c, sh) := startCall settings honest s.sh s.calls.length options signal randoms uuid
  continueCall settings platform leases honest { s with sh := sh, calls := s.calls ++ [c] }
    s.calls.length c

/-- The signal of a call aborts and tells its listener. -/
def disconnect (s : Process) (i : Nat) (c : Call) : Process :=
  let c := { c with lo.client := true }
  match c.wait with
  | some w =>
    if w.listening then
      match s.entries[w.entry]? with
      | some e =>
        let (c, e) := onAbort c w e
        (s.setCall i c).setEntry w.entry e
      | none => s.setCall i c
    else s.setCall i c
  | none => s.setCall i c

def step (s : Process) : Event → Option Process
  | .call options signal randoms uuid =>
    some (searchArticles settings platform leases honest s options signal randoms uuid)
  | .callReply i answer => s.calls[i]?.bind fun c =>
    ((jobHost settings honest).resume answer c.lookup ⟨s.sh, c.lo⟩).map fun (lookup, v) =>
      continueCall settings platform leases honest { s with sh := v.sh } i
        { c with lo := v.lo, lookup := lookup }
  | .jobReply n answer => s.entries[n]?.bind fun e =>
    ((jobHost settings honest).resume answer e.promise ⟨s.sh, e.lo⟩).map fun (promise, v) =>
      { s with sh := v.sh }.setEntry n { e with lo := v.lo, promise := promise }
  | .markSettled n => s.entries[n]?.bind fun e =>
    match e.promise with
    | .pure _ => if e.settled then none else some (markInFlightSettled s n e)
    | _ => none
  | .deliver i => s.calls[i]?.bind fun c => c.wait.bind fun w => s.entries[w.entry]?.bind fun e =>
    match e.promise with
    | .pure r =>
      if e.settled && !w.delivered then
        let (c, e) := deliver c w e r
        some ((s.setCall i c).setEntry w.entry e)
      else none
    | _ => none
  | .disconnect i => s.calls[i]?.bind fun c =>
    if c.hasSignal && !c.lo.client then some (disconnect s i c) else none
  | .shutdown => some { s with sh.shutdown := true }
  | .deadline n => s.entries[n]?.bind fun e => (fireDeadline s.sh.clock e.lo).map fun lo =>
    s.setEntry n { e with lo := lo }
  | .renewed n result => s.entries[n]?.bind fun e => (renew result e.lo).map fun lo =>
    s.setEntry n { e with lo := lo }
  | .elapse ms => some { s with sh.clock := s.sh.clock + ms }

/-! ## What each event does -/

section
variable {settings platform leases honest} {s s' : Process} {i n : Nat}
  {answer : (c : Command) → Option (Reply c)}

theorem step_callReply
    (h : step settings platform leases honest s (.callReply i answer) = some s') :
    ∃ c lookup v, s.calls[i]? = some c ∧
      (jobHost settings honest).resume answer c.lookup ⟨s.sh, c.lo⟩ = some (lookup, v) ∧
      s' = continueCall settings platform leases honest { s with sh := v.sh } i
        { c with lo := v.lo, lookup := lookup } := by
  obtain ⟨c, hi, hr⟩ := Option.bind_eq_some_iff.mp h
  obtain ⟨⟨lookup, v⟩, hres, rfl⟩ := Option.map_eq_some_iff.mp hr
  exact ⟨c, lookup, v, hi, hres, rfl⟩

theorem step_jobReply (h : step settings platform leases honest s (.jobReply n answer) = some s') :
    ∃ e promise v, s.entries[n]? = some e ∧
      (jobHost settings honest).resume answer e.promise ⟨s.sh, e.lo⟩ = some (promise, v) ∧
      s' = { s with sh := v.sh }.setEntry n { e with lo := v.lo, promise := promise } := by
  obtain ⟨e, hn, hr⟩ := Option.bind_eq_some_iff.mp h
  obtain ⟨⟨promise, v⟩, hres, rfl⟩ := Option.map_eq_some_iff.mp hr
  exact ⟨e, promise, v, hn, hres, rfl⟩

theorem step_markSettled (h : step settings platform leases honest s (.markSettled n) = some s') :
    ∃ e r, s.entries[n]? = some e ∧ e.promise = .pure r ∧ e.settled = false ∧
      s' = markInFlightSettled s n e := by
  obtain ⟨e, hn, hr⟩ := Option.bind_eq_some_iff.mp h
  split at hr
  · rename_i r hp
    split at hr <;> cases hr
    rename_i hs
    exact ⟨e, r, hn, hp, by simpa using hs, rfl⟩
  · cases hr

theorem step_deliver (h : step settings platform leases honest s (.deliver i) = some s') :
    ∃ c w e r, s.calls[i]? = some c ∧ c.wait = some w ∧ s.entries[w.entry]? = some e ∧
      e.promise = .pure r ∧ e.settled = true ∧ w.delivered = false ∧
      s' = (s.setCall i (deliver c w e r).1).setEntry w.entry (deliver c w e r).2 := by
  obtain ⟨c, hi, hc⟩ := Option.bind_eq_some_iff.mp h
  obtain ⟨w, hw, hwait⟩ := Option.bind_eq_some_iff.mp hc
  obtain ⟨e, hn, hr⟩ := Option.bind_eq_some_iff.mp hwait
  clear hc hwait
  split at hr
  · rename_i r hp
    split at hr <;> cases hr
    rename_i hready
    obtain ⟨hs, hd⟩ := Bool.and_eq_true_iff.mp hready
    exact ⟨c, w, e, r, hi, hw, hn, hp, hs, by simpa using hd, rfl⟩
  · cases hr

theorem step_disconnect (h : step settings platform leases honest s (.disconnect i) = some s') :
    ∃ c, s.calls[i]? = some c ∧ c.hasSignal = true ∧ s' = disconnect s i c := by
  obtain ⟨c, hi, hr⟩ := Option.bind_eq_some_iff.mp h
  split at hr <;> cases hr
  rename_i hsignal
  exact ⟨c, hi, (Bool.and_eq_true_iff.mp hsignal).1, rfl⟩

theorem step_deadline (h : step settings platform leases honest s (.deadline n) = some s') :
    ∃ e lo, s.entries[n]? = some e ∧ fireDeadline s.sh.clock e.lo = some lo ∧
      s' = s.setEntry n { e with lo := lo } := by
  obtain ⟨e, hn, hr⟩ := Option.bind_eq_some_iff.mp h
  obtain ⟨lo, hlo, rfl⟩ := Option.map_eq_some_iff.mp hr
  exact ⟨e, lo, hn, hlo, rfl⟩

theorem step_renewed {result : Except JsError Bool}
    (h : step settings platform leases honest s (.renewed n result) = some s') :
    ∃ e lo, s.entries[n]? = some e ∧ renew result e.lo = some lo ∧
      s' = s.setEntry n { e with lo := lo } := by
  obtain ⟨e, hn, hr⟩ := Option.bind_eq_some_iff.mp h
  obtain ⟨lo, hlo, rfl⟩ := Option.map_eq_some_iff.mp hr
  exact ⟨e, lo, hn, hlo, rfl⟩

end

end NewsApi.Services
