import NewsApi.Services.Outcomes
import NewsApi.Services.Subscribers

/-! # Replicas that share a cache

Any number of processes and one cache that only they write. A `set` that was
sent may have landed, whatever its reply was; a `get` finds one of the values
sent for its key, or nothing, because entries expire and are evicted, or fails.

What a call resolves with was returned by a provider search with its own
options, and its label says which way it came. -/
namespace NewsApi.Services
open NewsApi.Async NewsApi.Text NewsApi.Types NewsApi.Config NewsApi.Errors
open NewsApi.Runtime NewsApi.Collections

/-- An event of one replica. Where the cache returns a value, `pick` says which. -/
structure ReplicaEvent where
  replica : Nat
  event : Event
  pick : Nat

/-- The values sent to the cache, with their keys. -/
def Process.written (s : Process) : List (JsString × Json) :=
  (s.entries.map (·.lo) ++ s.calls.map (·.lo)).flatMap fun lo =>
    lo.writes.map fun w => (w.1, w.2.1)

def written (replicas : List Process) : List (JsString × Json) :=
  replicas.flatMap Process.written

/-- A cache that holds nothing but `entries`. -/
def fromStore (entries : List (JsString × Json)) (pick : Nat)
    (answer : (c : Command) → Option (Reply c)) : (c : Command) → Option (Reply c)
  | .storeGet key => (answer (.storeGet key)).bind fun
    | .ok (some _) => (entries.filter (·.1 = key))[pick]?.map fun entry => .ok (some entry.2)
    | reply => some reply
  | c => answer c

def Event.fromStore (entries : List (JsString × Json)) (pick : Nat) : Event → Event
  | .callReply i answer => .callReply i (Services.fromStore entries pick answer)
  | .jobReply n answer => .jobReply n (Services.fromStore entries pick answer)
  | event => event

def replicaStep (settings : Settings) (platform : Platform) (leases honest : Bool)
    (s : List Process) (ev : ReplicaEvent) : Option (List Process) :=
  s[ev.replica]?.bind fun p =>
    (step settings platform leases honest p (ev.event.fromStore (written s) ev.pick)).map fun p' =>
      s.set ev.replica p'

/-- A provider search with these options returned the articles. -/
def Returned (s : List Process) (options : ArticleSearchOptions) (articles : ArticleList) : Prop :=
  ∃ p ∈ s, ∃ e ∈ p.entries, e.options = options ∧ e.lo.provider = some (.ok articles)

/-- What the label of a result says of where it came from. -/
structure Truthful (p : Process) (c : Call) (result : ArticleSearchResult) : Prop where
  /-- read from the fresh entry by the call's own lookup -/
  hit : result.cache = .hit →
    c.wait = none ∧ (searchCacheKey c.options, result.articles.value) ∈ c.lo.reads
  /-- returned by the provider call of the search that the call created -/
  miss : result.cache = .miss → ∃ w e, c.wait = some w ∧ p.entries[w.entry]? = some e ∧
    w.existing = false ∧ e.creator = c.lo.id ∧ e.lo.provider = some (.ok result.articles)
  /-- read from the stale entry after the provider call had failed -/
  stale : result.cache = .stale → ∃ w e err, c.wait = some w ∧ p.entries[w.entry]? = some e ∧
    e.lo.provider = some (.error err) ∧
    (staleCacheKey e.cacheKey, result.articles.value) ∈ e.lo.reads
  /-- returned to a search that the call joined, or read from the fresh entry
  without a provider call -/
  coalesced : result.cache = .coalesced → ∃ w e, c.wait = some w ∧
    p.entries[w.entry]? = some e ∧
    (w.existing = true ∧ e.lo.provider = some (.ok result.articles) ∨
      e.lo.provider = none ∧ (e.cacheKey, result.articles.value) ∈ e.lo.reads)

variable {settings : Settings} {platform : Platform} {leases honest : Bool}
  {W W' : JsString × Json → Prop} {s s' : List Process} {p p' : Process} {c : Call}
  {e : InFlightSearch} {i : Nat}

/-! ## Whatever is read was written -/

theorem fromStore_answers (entries : List (JsString × Json)) (pick : Nat)
    (answer : (c : Command) → Option (Reply c)) :
    Answers (· ∈ entries) (fromStore entries pick answer) := by
  intro key value h
  obtain ⟨r, -, hr⟩ := Option.bind_eq_some_iff.mp h
  rcases r with err | _ | found
  · cases hr
  · cases hr
  · obtain ⟨entry, hentry, heq⟩ := Option.map_eq_some_iff.mp hr
    obtain ⟨hmem, hkey⟩ := List.mem_filter.mp (List.mem_of_getElem? hentry)
    cases heq
    rw [← of_decide_eq_true hkey]
    exact hmem

theorem event_answers (entries : List (JsString × Json)) (pick : Nat) (ev : Event) :
    (ev.fromStore entries pick).Answers (· ∈ entries) := by
  cases ev with
  | callReply i answer => exact fromStore_answers entries pick answer
  | jobReply n answer => exact fromStore_answers entries pick answer
  | _ => trivial

/-- Lookups write nothing. -/
theorem mem_written (h : Known settings honest W p) {x : JsString × Json} :
    x ∈ p.written ↔ ∃ e ∈ p.entries, ∃ w ∈ e.lo.writes, x = (w.1, w.2.1) := by
  constructor
  · intro hx
    obtain ⟨lo, hlo, hx⟩ := List.mem_flatMap.mp hx
    obtain ⟨w, hw, rfl⟩ := List.mem_map.mp hx
    rcases List.mem_append.mp hlo with hlo | hlo
    · obtain ⟨e, he, rfl⟩ := List.mem_map.mp hlo
      exact ⟨e, he, w, hw, rfl⟩
    · obtain ⟨c, hc, rfl⟩ := List.mem_map.mp hlo
      have hnone : c.lo.writes = [] := (h.lookups c hc).idle.writes
      rw [hnone] at hw
      cases hw
  · rintro ⟨e, he, w, hw, rfl⟩
    exact List.mem_flatMap.mpr ⟨e.lo, List.mem_append_left _ (List.mem_map_of_mem he),
      List.mem_map_of_mem (f := fun w => (w.1, w.2.1)) hw⟩

/-- What is known of every replica: whatever it read satisfies `W`. -/
def ReplicasKnown (settings : Settings) (honest : Bool) (W : JsString × Json → Prop)
    (s : List Process) : Prop :=
  ∀ p ∈ s, p.Ok ∧ Known settings honest W p

theorem ReplicasKnown.mono (h : ReplicasKnown settings honest W s) (hW : ∀ x, W x → W' x) :
    ReplicasKnown settings honest W' s :=
  fun p hp => (h p hp).imp_right (·.mono hW)

theorem ReplicasKnown.initial (k : Nat) :
    ReplicasKnown settings honest W (List.replicate k .initial) := by
  intro p hp
  rw [(List.mem_replicate.mp hp).2]
  exact ⟨.initial, .initial⟩

theorem written_mono (hp : s[i]? = some p) (hgrow : ∀ x ∈ p.written, x ∈ p'.written) :
    ∀ x ∈ written s, x ∈ written (s.set i p') := by
  intro x hx
  obtain ⟨q, hq, hx⟩ := List.mem_flatMap.mp hx
  obtain ⟨j, hj⟩ := List.mem_iff_getElem?.mp hq
  by_cases hij : i = j
  · subst hij
    cases hp.symm.trans hj
    exact List.mem_flatMap.mpr ⟨p',
      List.mem_of_getElem? (getElem?_set_here hp _), hgrow x hx⟩
  · exact List.mem_flatMap.mpr
      ⟨q, List.mem_of_getElem? ((List.getElem?_set_ne hij).trans hj), hx⟩

/-- One replica goes on, and what was written stays. -/
theorem ReplicasKnown.next {ev : Event} (h : ReplicasKnown settings honest W s)
    (hp : s[i]? = some p) (hanswers : ev.Answers W)
    (hs : step settings platform leases honest p ev = some p') :
    ReplicasKnown settings honest W (s.set i p') ∧ ∀ x ∈ written s, x ∈ written (s.set i p') := by
  obtain ⟨hok, hknown⟩ := h p (List.mem_of_getElem? hp)
  have hf := step_follows hok hknown hanswers hs
  refine ⟨fun q hq => ?_, written_mono hp fun x hx => ?_⟩
  · rcases List.mem_or_eq_of_mem_set hq with hq | rfl
    · exact h q hq
    · exact ⟨(step_advances hok hs).ok hok, hf.known⟩
  · obtain ⟨e, he, w, hw, rfl⟩ := (mem_written hknown).mp hx
    obtain ⟨n, hn⟩ := List.mem_iff_getElem?.mp he
    obtain ⟨e', hn', hg⟩ := hf.grow n e hn
    exact (mem_written hf.known).mpr ⟨e', List.mem_of_getElem? hn', w, hg.writes w hw, rfl⟩

theorem replicasKnown_step {ev : ReplicaEvent} (h : ReplicasKnown settings honest (· ∈ written s) s)
    (hs : replicaStep settings platform leases honest s ev = some s') :
    ReplicasKnown settings honest (· ∈ written s') s' := by
  obtain ⟨p, hp, hs⟩ := Option.bind_eq_some_iff.mp hs
  obtain ⟨p', hstep, rfl⟩ := Option.map_eq_some_iff.mp hs
  obtain ⟨hnext, hgrow⟩ := h.next hp (event_answers _ ev.pick ev.event) hstep
  exact hnext.mono hgrow

/-- A replica reads only what some replica wrote. -/
theorem replicasKnown_of_reachable {k : Nat}
    (hs : Reachable (replicaStep settings platform leases honest) (List.replicate k .initial) s) :
    ReplicasKnown settings honest (· ∈ written s) s :=
  hs.invariant (P := fun s => ReplicasKnown settings honest (· ∈ written s) s) (.initial k)
    fun _ _ _ h hstep => replicasKnown_step h hstep

/-! ## Whatever was written was returned by the provider -/

/-- What was written was returned to a search of the key. -/
theorem written_justified (h : ReplicasKnown settings honest W s) {key : JsString} {value : Json}
    (hw : (key, value) ∈ written s) : ∃ options articles, articles.value = value ∧
      Returned s options articles ∧
      (key = searchCacheKey options ∨ key = staleCacheKey (searchCacheKey options)) := by
  obtain ⟨p, hp, hw⟩ := List.mem_flatMap.mp hw
  obtain ⟨hok, hknown⟩ := h p hp
  obtain ⟨e, he, w, hw, heq⟩ := (mem_written hknown).mp hw
  obtain ⟨hwkey, own, hprovider, hvalue⟩ := (hknown.entries e he).justified w hw
  obtain ⟨rfl, rfl⟩ := Prod.mk.inj heq
  rw [(hok.entries e he).key] at hwkey
  exact ⟨e.options, own, hvalue.symm, ⟨p, hp, e, he, rfl, hprovider⟩, hwkey⟩

theorem written_returned (h : ReplicasKnown settings honest W s) {options : ArticleSearchOptions}
    {articles : ArticleList} {key : JsString} (hw : (key, articles.value) ∈ written s)
    (hkey : key = searchCacheKey options ∨ key = staleCacheKey (searchCacheKey options)) :
    Returned s options articles := by
  obtain ⟨own, list, hvalue, hreturned, hwkey⟩ := written_justified h hw
  obtain rfl : list = articles := ArticleList.ext hvalue
  suffices own = options by rwa [← this]
  -- fresh and stale entries are never confused, and a key determines the options
  rcases hkey with hk | hk <;> rcases hwkey with hw' | hw' <;> have hsame := hw'.symm.trans hk
  · exact searchCacheKey_injective hsame
  · exact absurd hsame (staleCacheKey_ne _ _)
  · exact absurd hsame.symm (staleCacheKey_ne _ _)
  · exact searchCacheKey_injective (staleCacheKey_injective hsame)

/-! ## Labels -/

/-- The outcome of the lookup of a call. -/
theorem LookupKnown.read {sh : Shared} {result : ArticleSearchResult}
    (h : LookupKnown settings honest W sh c) (hl : c.lookup = .pure (.ok (some result))) :
    result.cache = .hit ∧ (searchCacheKey c.options, result.articles.value) ∈ c.lo.reads := by
  have := h.parked
  rwa [hl] at this

/-- The label of a call that waited. -/
theorem truthful_shared {w : Wait} {own : ArticleSearchResult}
    (hjob : JobOutcome honest e.cacheKey (.ok own) ⟨p.sh, e.lo⟩) (hw : c.wait = some w)
    (hn : p.entries[w.entry]? = some e) (hcreator : w.existing = false → e.creator = c.lo.id) :
    Truthful p c (callResult w.existing own) := by
  rcases own with ⟨articles, _ | _ | _ | _⟩
  · exact hjob.elim
  · cases hex : w.existing with
    | false => exact ⟨nofun, fun _ => ⟨w, e, hw, hn, hex, hcreator hex, hjob⟩, nofun, nofun⟩
    | true => exact ⟨nofun, nofun, nofun, fun _ => ⟨w, e, hw, hn, .inl ⟨hex, hjob⟩⟩⟩
  · have hlabel : callResult w.existing ⟨articles, .coalesced⟩ = ⟨articles, .coalesced⟩ := by
      cases w.existing <;> rfl
    rw [hlabel]
    exact ⟨nofun, nofun, nofun, fun _ => ⟨w, e, hw, hn, .inr hjob⟩⟩
  · have hlabel : callResult w.existing ⟨articles, .stale⟩ = ⟨articles, .stale⟩ := by
      cases w.existing <;> rfl
    obtain ⟨⟨err, hprovider⟩, hread⟩ := hjob
    rw [hlabel]
    exact ⟨nofun, nofun, fun _ => ⟨w, e, err, hw, hn, hprovider, hread⟩, nofun⟩

/-- Whatever the provider returned satisfies `P`, and so does what is found for its
options; then every result does, and its label is truthful. -/
theorem ReplicasKnown.result {P : ArticleSearchOptions → ArticleList → Prop}
    (h : ReplicasKnown settings honest W s)
    (hreturned : ∀ {options articles}, Returned s options articles → P options articles)
    (hfound : ∀ {options : ArticleSearchOptions} {articles : ArticleList} {key},
      W (key, articles.value) →
      key = searchCacheKey options ∨ key = staleCacheKey (searchCacheKey options) →
      P options articles) (hp : p ∈ s) (hc : c ∈ p.calls) {result : ArticleSearchResult}
    (ho : c.outcome = some (.ok result)) : P c.options result.articles ∧ Truthful p c result := by
  obtain ⟨hok, hknown⟩ := h p hp
  have hanswered := hknown.answers c hc
  rcases (hanswered.outcome _ ho).ok_cases with ⟨hw, hl⟩ | ⟨w, e, own, hw, hn, hown, rfl⟩
  · have hlookup := hknown.lookups c hc
    obtain ⟨hcache, hread⟩ := hlookup.read hl
    refine ⟨hfound (hlookup.reads _ hread) (.inl rfl), fun _ => ⟨hw, hread⟩, ?_, ?_, ?_⟩
    all_goals
      rw [hcache]
      nofun
  · have he := List.mem_of_getElem? hn
    have hentry := hknown.entries e he
    have hjob := hentry.outcome hown
    have hkey := (hok.entries e he).key
    obtain ⟨e', hn', hcallKey, hcreator⟩ := hanswered.key w hw
    cases hn.symm.trans hn'
    refine ⟨?_, truthful_shared hjob hw hn hcreator⟩
    obtain hoptions : e.options = c.options := searchCacheKey_injective (hkey.symm.trans hcallKey)
    rw [callResult_articles, ← hoptions]
    rcases own with ⟨articles, _ | _ | _ | _⟩
    · exact hjob.elim
    · exact hreturned ⟨p, hp, e, he, rfl, hjob⟩
    · exact hfound (hentry.reads _ hjob.2) (.inl hkey)
    · exact hfound (hentry.reads _ hjob.2) (.inr (congrArg staleCacheKey hkey))

/-- Every result is an article list that a provider search with the same
options returned, and its label is truthful. -/
theorem provenance {k : Nat}
    (hs : Reachable (replicaStep settings platform leases honest) (List.replicate k .initial) s) :
    ∀ p ∈ s, ∀ c ∈ p.calls, ∀ result, c.outcome = some (.ok result) →
      isArticleList result.articles.value = true ∧ Returned s c.options result.articles ∧
        Truthful p c result := by
  have h := replicasKnown_of_reachable hs
  intro p hp c hc result ho
  obtain ⟨hreturned, hlabel⟩ := h.result (P := Returned s) id (written_returned h) hp hc ho
  exact ⟨result.articles.isList, hreturned, hlabel⟩

/-! ## A sample run -/

/-- A cache that has an entry. -/
def fullStore : (c : Command) → Option (Reply c)
  | .storeGet _ => some (.ok (some .null))
  | c => emptyStore c

/-- One replica loads what the other then finds in the cache. -/
def loads : List Event :=
  [sampleCall none, .callReply 0 emptyStore, .callReply 0 emptyStore] ++
    List.replicate 8 (.jobReply 0 emptyStore) ++ [.markSettled 0, .deliver 0]

def finds : List Event := [sampleCall none, .callReply 0 fullStore, .callReply 0 fullStore]

def loadThenHit : List ReplicaEvent := loads.map (⟨0, ·, 0⟩) ++ finds.map (⟨1, ·, 0⟩)

theorem provenance_loadThenHit :
    ∃ s p c result, run (replicaStep .default .plain false true) [.initial, .initial] loadThenHit =
        some s ∧ s[1]? = some p ∧ c ∈ p.calls ∧ c.outcome = some (.ok result) ∧
      result.cache = .hit ∧ Returned s c.options result.articles ∧ Truthful p c result := by
  have hrun : (run (replicaStep .default .plain false true) [.initial, .initial] loadThenHit).map
      (fun s => s[1]?.bind fun p => p.calls[0]?.bind (·.outcome)) =
      some (some (.ok ⟨⟨.arr [], rfl⟩, .hit⟩)) := rfl
  obtain ⟨s, hs, h⟩ := Option.map_eq_some_iff.mp hrun
  obtain ⟨p, hp, h⟩ := Option.bind_eq_some_iff.mp h
  obtain ⟨c, hc, ho⟩ := Option.bind_eq_some_iff.mp h
  have hreach : Reachable (replicaStep .default .plain false true) (List.replicate 2 .initial) s :=
    ⟨loadThenHit, hs⟩
  have hmem := List.mem_of_getElem? hc
  obtain ⟨-, hreturned, hlabel⟩ := provenance hreach p (List.mem_of_getElem? hp) c hmem _ ho
  exact ⟨s, p, c, _, hs, hp, hmem, ho, rfl, hreturned, hlabel⟩

end NewsApi.Services
