import NewsApi.Services.Cancellation
import NewsApi.Services.Degraded
import NewsApi.Services.FreshBacked

/-! # Stale on error

Once a search has obtained articles and written them twice, later searches for
its key have them to fall back on until the stale entry's time is over. -/
namespace NewsApi.Services
open NewsApi.Async NewsApi.Text NewsApi.Types NewsApi.Config NewsApi.Errors NewsApi.Cache
open NewsApi.Runtime NewsApi.Redis

/-- The search has articles from the provider, and the store has executed both
its writes, the stale one at `t`. -/
structure Completed (b : Backed) (n : Nat) (e : InFlightSearch) (articles : ArticleList)
    (t : Nat) : Prop where
  search : b.process.entries[n]? = some e
  provider : e.lo.provider = some (.ok articles)
  fresh : ∃ t', (e.cacheKey, t') ∈ b.landed n
  stale : (staleCacheKey e.cacheKey, t) ∈ b.landed n

/-- All its subscribers have left, or its provider call was cancelled by the shutdown. -/
def InFlightSearch.Aborted (sh : Shared) (e : InFlightSearch) : Prop :=
  e.lo.client = true ∨ sh.shutdown = true ∧
    ∃ err, e.lo.provider = some (.error err) ∧ isRequestAbortedError err = true

/-- Neither the call nor its work is aborted, and no newer search succeeds. -/
structure Undisturbed (b : Backed) (n : Nat) (key : JsString) (c : Call) : Prop where
  client : c.lo.client = false
  work : ∀ w e, c.wait = some w → b.process.entries[w.entry]? = some e →
    ¬e.Aborted b.process.sh
  newest : ∀ m e articles, n < m → b.process.entries[m]? = some e → e.cacheKey = key →
    e.lo.provider ≠ some (.ok articles)

/-- The result is these articles, and they do not come from a new search. -/
def ResolvesWith (articles : ArticleList) (r : Except JsError ArticleSearchResult) : Prop :=
  ∃ result, r = .ok result ∧ result.articles = articles ∧
    (result.cache = .hit ∨ result.cache = .coalesced ∨ result.cache = .stale)

/-- A call for the key that came after search `n`. -/
structure LaterCall (settings : Settings) (b : Backed) (n : Nat) (key : JsString)
    (articles : ArticleList) (t i : Nat) (c : Call) : Prop where
  fits : LastGood settings b n key articles t →
    Fits key articles c.lo.reads c.lookup.pending (b.lookups i)
  waits : ∀ w, c.wait = some w → n ≤ w.entry ∧ (w.entry = n → w.existing = true)

def LaterCalls (settings : Settings) (b : Backed) (n : Nat) (key : JsString)
    (articles : ArticleList) (t first : Nat) : Prop :=
  ∀ (i : Nat) c, first ≤ i → b.process.calls[i]? = some c → searchCacheKey c.options = key →
    LaterCall settings b n key articles t i c

variable {settings : Settings} {platform : Platform} {leases honest : Bool} {b b' b1 b2 : Backed}
  {e f : InFlightSearch} {c c' : Call} {executed : Option Executed} {event : Event}
  {key : JsString} {articles : ArticleList} {db : Db} {n m i t first : Nat}

/-! ## Later calls -/

theorem Fits.reset {reads : List (JsString × Json)} {pending pending' : Option Command}
    (h : Fits key articles reads pending executed) : Fits key articles reads pending' none :=
  .idle h.reads

theorem delivered_lookups_cases (event : Event) (b : Backed) (i : Nat) :
    (b.delivered event).lookups i = b.lookups i ∨ (b.delivered event).lookups i = none := by
  cases event with
  | callReply j answer =>
    by_cases hij : i = j
    · exact .inr (hij ▸ Function.update_self ..)
    · exact .inl (Function.update_of_ne hij ..)
  | _ => exact .inl rfl

section
variable (hi : Backed.Inv settings honest b) (hn : b.process.entries[n]? = some e)
include hi hn

/-- A later call does not come to wait for an earlier search. -/
theorem waits_of_turns {wait : Option Wait} (ht : Turns b.process c wait)
    (hk : searchCacheKey c.options = e.cacheKey) :
    ∀ w, wait = some w → n ≤ w.entry ∧ (w.entry = n → w.existing = true) := by
  intro w hw
  cases ht with
  | alone => cases hw
  | joined w' hmap he =>
    cases hw
    refine ⟨Nat.le_of_not_lt fun hlt => ?_, fun _ => he⟩
    obtain ⟨g, hg, hkey, hopen⟩ := hi.ok.board.live _ _ hmap
    obtain ⟨f, hf, rfl⟩ := Option.map_eq_some_iff.mp (List.getElem?_map.symm.trans hg)
    have hsettled := hi.ordered w.entry n f e hlt hf hn (hkey.trans hk)
    exact absurd (hsettled.symm.trans hopen) nofun
  | created w' hentry =>
    cases hw
    have := (List.getElem?_eq_some_iff.mp hn).1
    exact ⟨by omega, fun h => by omega⟩

variable (hl : (staleCacheKey e.cacheKey, t) ∈ b.landed n)
  (h : LaterCalls settings b n e.cacheKey articles t first)
include hl h

theorem LaterCalls.process
    (hs : backedStep settings platform leases honest b (.process event) = some b') :
    LaterCalls settings b' n e.cacheKey articles t first := by
  obtain ⟨p, hp, rfl⟩ := backedStep_process hs
  have hnext := hi.next_process hp
  have hcalls := (hi.evolves hp).calls
  intro i c' hfirst hc' hk
  cases hc : b.process.calls[i]? with
  | none =>
    have harrived := hcalls.arrived i c' hc' hc
    have hnone : (b.delivered event).lookups i = none :=
      delivered_lookups (hi.newLookups i (List.getElem?_eq_none_iff.mp hc))
    refine ⟨fun _ => ?_, fun w hw => nomatch harrived.wait.symm.trans hw⟩
    rw [hnone, harrived.reads]
    exact .idle fun r hr => nomatch hr
  | some c =>
    obtain ⟨c1, hc1, hmoves⟩ := hcalls.moved i c hc
    cases hc'.symm.trans hc1
    cases hmoves with
    | keeps hkeeps =>
      rw [hkeeps.options] at hk
      have hlater := h i c hfirst hc hk
      refine ⟨fun hlast => ?_, fun w' hw' => ?_⟩
      · have hfits := hlater.fits (hi.lastGood_before hlast hnext hl)
        rw [hkeeps.reads, hkeeps.lookup]
        rcases delivered_lookups_cases event b i with heq | heq
        · rw [heq]
          exact hfits
        · rw [heq]
          exact hfits.reset
      · obtain ⟨w, hw, hentry, hexisting⟩ := hkeeps.wait w' hw'
        rw [hentry, hexisting]
        exact hlater.waits w hw
    | looked answer v hev hr hlo ho ht =>
      rw [ho] at hk
      refine ⟨fun hlast => ?_, waits_of_turns hi hn ht hk⟩
      have hfits := (h i c hfirst hc hk).fits (hi.lastGood_before hlast hnext hl)
      cases event with
      | callReply j answer0 =>
        cases hev
        rw [hlo, show (b.delivered (.callReply i answer0)).lookups i = none from
          Function.update_self ..]
        exact hfits.resume hr
      | _ => cases hev

omit hn in
theorem LaterCalls.executeLookup
    (hs : backedStep settings platform leases honest b (.executeLookup m) = some b') :
    LaterCalls settings b' n e.cacheKey articles t first := by
  have hnext := hi.next hs
  obtain ⟨c', command, executed, db, hm, hpending, hnone, hexec, rfl⟩ :=
    backedStep_executeLookup hs
  intro i c hfirst hc hk
  have hlater := h i c hfirst hc hk
  refine ⟨fun hlast => ?_, hlater.waits⟩
  have hbefore := hi.lastGood_before hlast hnext hl
  have hfits := hlater.fits hbefore
  by_cases him : i = m
  · subst him
    cases hm.symm.trans hc
    rw [show (b.lookedUp i executed db).lookups i = some executed from Function.update_self ..]
    rw [hpending, hnone] at hfits
    rw [hpending]
    exact hfits.execute hexec (hi.get hbefore)
  · rw [show (b.lookedUp m executed db).lookups i = b.lookups i from Function.update_of_ne him ..]
    exact hfits

theorem LaterCalls.step {event : BackedEvent}
    (hs : backedStep settings platform leases honest b event = some b') :
    LaterCalls settings b' n e.cacheKey articles t first := by
  have hnext := hi.next hs
  have hother : b'.process = b.process → b'.lookups = b.lookups →
      LaterCalls settings b' n e.cacheKey articles t first := by
    intro hp hlookups i c hfirst hc hk
    rw [hp] at hc
    have hlater := h i c hfirst hc hk
    refine ⟨fun hlast => ?_, hlater.waits⟩
    rw [hlookups]
    exact hlater.fits (hi.lastGood_before hlast hnext hl)
  cases event with
  | process event => exact LaterCalls.process hi hn hl h hs
  | executeLookup m => exact LaterCalls.executeLookup hi hl h hs
  | executeWork m =>
    obtain ⟨_, _, _, _, -, -, -, -, rfl⟩ := backedStep_executeWork hs
    exact hother rfl rfl
  | elapse ms =>
    cases hs
    exact hother rfl rfl
  | sweep k =>
    cases hs
    exact hother rfl rfl

end

/-! ## How later calls end -/

section
variable {r : Except JsError ArticleSearchResult}
  (hi : Backed.Inv settings true b) (hlast : LastGood settings b n key articles t)
include hi hlast

/-- The call waited for the search itself. -/
theorem resolves_same (hn : b.process.entries[n]? = some f) (hp : f.promise = .pure r)
    (hwork : ¬f.Aborted b.process.sh) : ResolvesWith articles (r.map (callResult true)) := by
  obtain ⟨e, he, -, hprovider⟩ := hlast.search
  cases hn.symm.trans he
  have hclient : f.lo.client = false := Bool.eq_false_iff.mpr fun h => hwork (.inl h)
  have hout := (hi.known.mem hn).outcome hp
  obtain rfl := hout.resolved hprovider hclient
  exact ⟨_, rfl, rfl, .inr (.inl rfl)⟩

/-- The call waited for a search that had no success of its own. -/
theorem resolves_later {existing : Bool} (hm : b.process.entries[m]? = some f) (hlt : n < m)
    (hk : f.cacheKey = key) (hp : f.promise = .pure r) (hwork : ¬f.Aborted b.process.sh)
    (hnone : ∀ own, f.lo.provider ≠ some (.ok own)) :
    ResolvesWith articles (r.map (callResult existing)) := by
  subst hk
  obtain ⟨log, hback, hlater⟩ := hi.entries m f hm
  obtain ⟨hfits, hserved⟩ := hlater n hlt articles t hlast
  have hread : ∀ own : ArticleList, (f.cacheKey, own.value) ∈ f.lo.reads ∨
      (staleCacheKey f.cacheKey, own.value) ∈ f.lo.reads → own = articles := by
    rintro own (h | h)
    · exact ArticleList.ext (hfits.reads _ h (.inl rfl))
    · exact ArticleList.ext (hfits.reads _ h (.inr rfl))
  have hout := (hi.known.mem hm).outcome hp
  have hexcused := hback.parked
  rw [hp] at hexcused
  rcases r with err | ⟨own, _ | _ | _ | _⟩
  · -- it was not cancelled, so the stale entry could not be read
    rcases hexcused err rfl with hab | hu
    · refine absurd ?_ hwork
      exact hout.imp id fun ⟨hprovider, hshutdown⟩ => ⟨hshutdown rfl hab, err, hprovider, hab⟩
    · exact absurd hu hserved
  · exact hout.elim
  · exact absurd hout (hnone own)
  · obtain rfl := hread own (.inl hout.2)
    cases existing <;> exact ⟨_, rfl, rfl, .inr (.inl rfl)⟩
  · obtain rfl := hread own (.inr hout.2)
    cases existing <;> exact ⟨_, rfl, rfl, .inr (.inr rfl)⟩

theorem resolves_call (hcall : b.process.calls[i]? = some c)
    (hkey : searchCacheKey c.options = key) (hlater : LaterCall settings b n key articles t i c)
    (hout : c.outcome = some r) (hu : Undisturbed b n key c) : ResolvesWith articles r := by
  have hmem := List.mem_of_getElem? hcall
  have hanswered := hi.known.answers c hmem
  cases hanswered.outcome r hout with
  | @cached result hw hl =>
    have hparked := (hi.known.lookups c hmem).parked
    rw [hl] at hparked
    obtain ⟨hcache, hread⟩ : result.cache = .hit ∧
      (searchCacheKey c.options, result.articles.value) ∈ c.lo.reads := hparked
    refine ⟨result, rfl, ?_, .inl hcache⟩
    exact ArticleList.ext ((hlater.fits hlast).reads _ hread (.inl hkey))
  | canceled hc => exact nomatch hu.client.symm.trans hc
  | @delivered w f r' hw hn hp =>
    obtain ⟨hle, hexisting⟩ := hlater.waits w hw
    obtain ⟨f', hn', hk, -⟩ := hanswered.key w hw
    cases hn.symm.trans hn'
    have hwork := hu.work w f hw hn
    rcases Nat.eq_or_lt_of_le hle with heq | hlt
    · rw [hexisting heq.symm]
      exact resolves_same hi hlast (heq ▸ hn) hp hwork
    · exact resolves_later hi hlast hn hlt (hk.trans hkey) hp hwork fun own =>
        hu.newest w.entry f own hlt hn (hk.trans hkey)

end

/-! ## Every run -/

theorem resolves_of_reachable {r : Except JsError ArticleSearchResult}
    (hi : Backed.Inv settings true b1) (hdone : Completed b1 n e articles t)
    (h2 : Reachable (backedStep settings platform leases true) b1 b2)
    (halive : b2.db.now ≤ staleUntil settings t) (hlater : b1.process.calls.length ≤ i)
    (hcall : b2.process.calls[i]? = some c) (hkey : searchCacheKey c.options = e.cacheKey)
    (hout : c.outcome = some r) (hu : Undisturbed b2 n e.cacheKey c) :
    ResolvesWith articles r := by
  have hrun := h2.invariant (P := fun b => Backed.Inv settings true b ∧
    b1.Next b ∧ LaterCalls settings b n e.cacheKey articles t b1.process.calls.length)
    ⟨hi, .refl b1, fun i c hle hc =>
      absurd hle (Nat.not_le_of_lt (List.getElem?_eq_some_iff.mp hc).1)⟩
    fun b ev b' ⟨hi, hnext, hcalls⟩ hs => by
      obtain ⟨e', hn, hg⟩ := hnext.entries n e hdone.search
      have hl := hnext.landed n _ hdone.stale
      rw [← hg.cacheKey] at hl hcalls ⊢
      exact ⟨hi.step hs, hnext.trans (hi.next hs), hcalls.step hi hn hl hs⟩
  obtain ⟨hi, hnext, hcalls⟩ := hrun
  obtain ⟨e', hn, hg⟩ := hnext.entries n e hdone.search
  have hlast : LastGood settings b2 n e.cacheKey articles t := by
    refine ⟨⟨e', hn, hg.cacheKey, hg.provider _ hdone.provider⟩, ?_, hnext.landed n _ hdone.stale,
      halive⟩
    rintro ⟨m, f, hlt, hm, hk, hl⟩
    obtain ⟨f', own, hm', hp⟩ := hi.provider hl
    cases hm.symm.trans hm'
    exact hu.newest m f own hlt hm hk hp
  exact resolves_call hi hlast hcall hkey (hcalls i c hlater hcall hkey) hout hu

/-- After search `n` has obtained articles from the provider and written them,
every later call for its key that ends before the stale entry does resolves
with them, unless it or the work it waits for is aborted, or the provider has
answered a newer search. And between the writes of searches, a fresh entry that
can be read has a stale one with the same articles that lives longer. -/
theorem stale_on_error (settings : Settings) (raw : Option JsString) (platform : Platform)
    (leases : Bool) (db : Db) (b : Backed)
    (h : Reachable (backedStep (resolved settings raw) platform leases true) (.initial db) b) :
    (∀ n e articles t, Completed b n e articles t →
      ∀ b', Reachable (backedStep (resolved settings raw) platform leases true) b b' →
        b'.db.now ≤ staleUntil (resolved settings raw) t →
        ∀ i c r, b.process.calls.length ≤ i → b'.process.calls[i]? = some c →
          searchCacheKey c.options = e.cacheKey → c.outcome = some r →
          Undisturbed b' n e.cacheKey c → ResolvesWith articles r) ∧
    (∀ options, Backs (searchCacheKey options) db → BetweenWrites b (searchCacheKey options) →
      Backs (searchCacheKey options) b.db) :=
  ⟨fun _ _ _ _ hdone _ h' halive _ _ _ => resolves_of_reachable (inv_of_reachable h) hdone h' halive,
    fun _ hb => backs_of_reachable hb h⟩

/-! ## A sample run -/

def emptyDb : Db := ⟨0, fun _ => none⟩

def noArticles : ArticleList := ⟨.arr [], rfl⟩

/-- The provider has no articles, which are written under both keys. -/
def firstSearch : List BackedEvent :=
  [.process (sampleCall none), .executeLookup 0] ++
  List.replicate 2 (.process (.callReply 0 emptyStore)) ++
  List.replicate 4 (.process (.jobReply 0 emptyStore)) ++
  [.executeWork 0] ++ List.replicate 2 (.process (.jobReply 0 emptyStore)) ++
  [.executeWork 0] ++ List.replicate 2 (.process (.jobReply 0 emptyStore)) ++
  [.process (.markSettled 0), .process (.deliver 0)]

/-- The fresh entry's time is over, and the provider refuses the next request. -/
def outage : List BackedEvent :=
  [.elapse 600001, .process (sampleCall none), .executeLookup 1] ++
  List.replicate 2 (.process (.callReply 1 emptyStore)) ++
  List.replicate 4 (.process (.jobReply 1 failingProvider)) ++
  [.executeWork 1] ++ List.replicate 3 (.process (.jobReply 1 failingProvider)) ++
  [.process (.markSettled 1), .process (.deliver 1)]

theorem getElem?_of_map {α : Type 1} {β : Type} {g : α → β} {xs : List α} {ys : List β} {x : α}
    (h : xs.map g = ys) (hx : xs[n]? = some x) : ys[n]? = some (g x) := by
  rw [← h, List.getElem?_map, hx]
  rfl

/-- The first search is the only one, and has written both entries. -/
theorem firstSearch_done :
    ∃ b, run (backedStep (resolved .default none) .plain false true) (.initial emptyDb)
        firstSearch = some b ∧ b.process.calls.length = 1 ∧
      b.landed 0 = [(staleCacheKey (searchCacheKey sampleOptions), 0),
        (searchCacheKey sampleOptions, 0)] ∧
      (∃ e, b.process.entries[0]? = some e) ∧
      ∀ (n : Nat) e, b.process.entries[n]? = some e → n = 0 ∧
        e.cacheKey = searchCacheKey sampleOptions ∧ e.lo.provider = some (.ok noArticles) := by
  have hrun : (run (backedStep (resolved .default none) .plain false true) (.initial emptyDb)
      firstSearch).map (fun b => (b.process.calls.length, b.landed 0,
        b.process.entries.map fun e => (e.cacheKey, e.lo.provider))) =
      some (1, [(staleCacheKey (searchCacheKey sampleOptions), 0),
        (searchCacheKey sampleOptions, 0)],
        [(searchCacheKey sampleOptions, some (.ok noArticles))]) := rfl
  obtain ⟨b, hb, hdata⟩ := Option.map_eq_some_iff.mp hrun
  obtain ⟨hcalls, hdata⟩ := Prod.mk.inj hdata
  obtain ⟨hlanded, hentries⟩ := Prod.mk.inj hdata
  refine ⟨b, hb, hcalls, hlanded, ?_, fun n e hn => ?_⟩
  · have hlen := congrArg List.length hentries
    rw [List.length_map] at hlen
    exact ⟨_, List.getElem?_eq_getElem (by rw [hlen]; exact Nat.zero_lt_one)⟩
  · obtain ⟨hlt, heq⟩ := List.getElem?_eq_some_iff.mp (getElem?_of_map hentries hn)
    obtain rfl : n = 0 := Nat.lt_one_iff.mp hlt
    exact ⟨rfl, (Prod.mk.inj heq).1.symm, (Prod.mk.inj heq).2.symm⟩

/-- The second search is not aborted and does not succeed, and its call gets the stale entry. -/
theorem outage_served :
    ∃ b b' c, run (backedStep (resolved .default none) .plain false true) (.initial emptyDb)
        firstSearch = some b ∧
      run (backedStep (resolved .default none) .plain false true) b outage = some b' ∧
      b'.process.calls[1]? = some c ∧ c.options = sampleOptions ∧
      c.outcome = some (.ok ⟨noArticles, .stale⟩) ∧ b'.db.now = 600001 ∧
      Undisturbed b' 0 (searchCacheKey sampleOptions) c := by
  have hrun : (run (backedStep (resolved .default none) .plain false true) (.initial emptyDb)
      (firstSearch ++ outage)).map (fun b => (b.db.now, b.process.sh.shutdown,
        b.process.entries.map (fun e => (e.lo.client, e.lo.provider.any (·.isOk))),
        b.process.calls[1]?.map fun c => (c.options, c.lo.client, c.outcome))) =
      some (600001, false, [(false, true), (false, false)],
        some (sampleOptions, false, some (.ok ⟨noArticles, .stale⟩))) := rfl
  obtain ⟨b, hb, -⟩ := firstSearch_done
  rw [run_append, hb, Option.bind_some] at hrun
  obtain ⟨b', hb', hdata⟩ := Option.map_eq_some_iff.mp hrun
  obtain ⟨hnow, hdata⟩ := Prod.mk.inj hdata
  obtain ⟨hshutdown, hdata⟩ := Prod.mk.inj hdata
  obtain ⟨hentries, hcall⟩ := Prod.mk.inj hdata
  obtain ⟨c, hc, hdata⟩ := Option.map_eq_some_iff.mp hcall
  obtain ⟨hoptions, hdata⟩ := Prod.mk.inj hdata
  obtain ⟨hclient, hout⟩ := Prod.mk.inj hdata
  have hsecond : ∀ (n : Nat) f, b'.process.entries[n]? = some f →
      f.lo.client = false ∧ (0 < n → f.lo.provider.any (·.isOk) = false) := by
    intro n f hn
    have hget := getElem?_of_map hentries hn
    obtain ⟨hlt, -⟩ := List.getElem?_eq_some_iff.mp hget
    have hn2 : n = 0 ∨ n = 1 := by
      simp only [List.length_cons, List.length_nil] at hlt
      omega
    rcases hn2 with rfl | rfl
    · obtain ⟨hlive, -⟩ := Prod.mk.inj (Option.some.inj hget)
      exact ⟨hlive.symm, fun h => absurd h (Nat.lt_irrefl 0)⟩
    · obtain ⟨hlive, hfailed⟩ := Prod.mk.inj (Option.some.inj hget)
      exact ⟨hlive.symm, fun _ => hfailed.symm⟩
  refine ⟨b, b', c, hb, hb', hc, hoptions, hout, hnow, hclient, fun w f hw hn => ?_,
    fun m f own hlt hm hk hown => ?_⟩
  · rintro (hgone | ⟨hdown, -⟩)
    · cases (hsecond _ f hn).1.symm.trans hgone
    · cases hshutdown.symm.trans hdown
  · have hfailed := (hsecond m f hm).2 hlt
    rw [hown] at hfailed
    cases hfailed

theorem stale_on_error_outage :
    ∃ b b' c, run (backedStep (resolved .default none) .plain false true) (.initial emptyDb)
        firstSearch = some b ∧
      run (backedStep (resolved .default none) .plain false true) b outage = some b' ∧
      b'.process.calls[1]? = some c ∧ c.outcome = some (.ok ⟨noArticles, .stale⟩) ∧
      ResolvesWith noArticles (.ok ⟨noArticles, .stale⟩) ∧
      Backs (searchCacheKey sampleOptions) b.db := by
  obtain ⟨b, b', c, hb, hb', hc, hoptions, hout, hnow, hundisturbed⟩ := outage_served
  obtain ⟨b1, hb1, hcalls, hlanded, ⟨e, he⟩, hfirst⟩ := firstSearch_done
  cases hb.symm.trans hb1
  obtain ⟨-, hkey, hprovider⟩ := hfirst 0 e he
  have hdone : Completed b 0 e noArticles 0 := by
    refine ⟨he, hprovider, ⟨0, ?_⟩, ?_⟩ <;> rw [hlanded, hkey]
    · exact .tail _ (.head _)
    · exact .head _
  have halive : b'.db.now ≤ staleUntil (resolved .default none) 0 := by
    rw [hnow]
    decide
  have hresult := stale_on_error .default none .plain false emptyDb b ⟨firstSearch, hb⟩
  refine ⟨b, b', c, hb, hb', hc, hout, ?_, ?_⟩
  · exact hresult.1 0 e noArticles 0 hdone b' ⟨outage, hb'⟩ halive 1 c _ (Nat.le_of_eq hcalls) hc
      (by rw [hoptions, hkey]) hout (hkey ▸ hundisturbed)
  · refine hresult.2 sampleOptions (.of_none rfl) fun n f t hn _ _ => ⟨0, ?_⟩
    obtain ⟨rfl, -, -⟩ := hfirst n f hn
    rw [hlanded]
    exact .head _

end NewsApi.Services
