import NewsApi.Collections.Slots
import NewsApi.Services.Accounting
import NewsApi.Services.JobSpec

/-! # How calls end

Every call that has ended was answered from the cache by its own lookup, was
cancelled by its own signal, or has the result of the in-flight search it
waited for; and that search ended as its provider call and its reads allow. -/
namespace NewsApi.Services
open NewsApi.Async NewsApi.Text NewsApi.Types NewsApi.Config NewsApi.Errors
open NewsApi.Runtime NewsApi.Collections

/-- What a lookup settles with. -/
def LookupOutcome (options : ArticleSearchOptions) (r : Except JsError (Option ArticleSearchResult))
    (v : View) : Prop :=
  match r with
  | .error e => e = .requestAborted ∧ v.lo.client = true
  | r => ReadPost (searchCacheKey options) .hit r v

section
variable (settings : Settings) (honest : Bool) (W : JsString × Json → Prop)

/-- What is known of the work of an in-flight search. -/
structure EntryKnown (sh : Shared) (e : InFlightSearch) : Prop where
  justified : Justified e.cacheKey ⟨sh, e.lo⟩
  parked : (jobHost settings honest).parked (jobContract e.cacheKey)
    (JobOutcome honest e.cacheKey) e.promise ⟨sh, e.lo⟩
  reads : ∀ r ∈ e.lo.reads, W r

/-- What is known of the lookup of a call. -/
structure LookupKnown (sh : Shared) (c : Call) : Prop where
  idle : Idle ⟨sh, c.lo⟩
  parked : (jobHost settings honest).parked lookupContract (LookupOutcome c.options)
    c.lookup ⟨sh, c.lo⟩
  reads : ∀ r ∈ c.lo.reads, W r

end

/-- Where the outcome of a call comes from. -/
inductive CallOutcome (entries : List InFlightSearch) (c : Call) :
    Except JsError ArticleSearchResult → Prop
  | cached {result : ArticleSearchResult} (hw : c.wait = none)
    (hl : c.lookup = .pure (.ok (some result))) : CallOutcome entries c (.ok result)
  | canceled (hc : c.lo.client = true) : CallOutcome entries c (.error .requestAborted)
  | delivered {w : Wait} {e : InFlightSearch} {r : Except JsError ArticleSearchResult}
    (hw : c.wait = some w) (hn : entries[w.entry]? = some e) (hp : e.promise = .pure r) :
    CallOutcome entries c (r.map (callResult w.existing))

theorem CallOutcome.error_cases {entries : List InFlightSearch} {c : Call} {err : JsError}
    (h : CallOutcome entries c (.error err)) :
    c.lo.client = true ∧ err = .requestAborted ∨
      ∃ w e, c.wait = some w ∧ entries[w.entry]? = some e ∧ e.promise = .pure (.error err) := by
  generalize hx : Except.error err = x at h
  cases h with
  | cached => cases hx
  | canceled hc => exact .inl ⟨hc, Except.error.inj hx⟩
  | @delivered w e r hw hn hp =>
    cases r <;> cases hx
    exact .inr ⟨w, e, hw, hn, hp⟩

theorem CallOutcome.ok_cases {entries : List InFlightSearch} {c : Call}
    {result : ArticleSearchResult} (h : CallOutcome entries c (.ok result)) :
    c.wait = none ∧ c.lookup = .pure (.ok (some result)) ∨
      ∃ w e own, c.wait = some w ∧ entries[w.entry]? = some e ∧ e.promise = .pure (.ok own) ∧
        result = callResult w.existing own := by
  generalize hx : Except.ok result = x at h
  cases h with
  | cached hw hl =>
    cases hx
    exact .inl ⟨hw, hl⟩
  | canceled => cases hx
  | @delivered w e r hw hn hp =>
    cases r with
    | error => cases hx
    | ok own => exact .inr ⟨w, e, own, hw, hn, hp, Except.ok.inj hx⟩

theorem callResult_articles (existing : Bool) (result : ArticleSearchResult) :
    (callResult existing result).articles = result.articles := by
  unfold callResult
  split <;> rfl

/-- A call waits for a search of its own key and is answered accordingly. -/
structure Answered (entries : List InFlightSearch) (c : Call) : Prop where
  key : ∀ w, c.wait = some w → ∃ e, entries[w.entry]? = some e ∧
    e.cacheKey = searchCacheKey c.options ∧ (w.existing = false → e.creator = c.lo.id)
  outcome : ∀ r, c.outcome = some r → CallOutcome entries c r

/-- Whatever was read satisfies `W`. -/
structure Known (settings : Settings) (honest : Bool) (W : JsString × Json → Prop)
    (s : Process) : Prop where
  entries : ∀ e ∈ s.entries, EntryKnown settings honest W s.sh e
  lookups : ∀ c ∈ s.calls, LookupKnown settings honest W s.sh c
  answers : ∀ c ∈ s.calls, Answered s.entries c

variable {settings : Settings} {platform : Platform} {leases honest : Bool}
  {W W' : JsString × Json → Prop} {s s' : Process} {sh sh' : Shared} {c c' : Call}
  {e e' : InFlightSearch} {i n : Nat} {replied : Nat → Prop}

/-! ## What is kept -/

theorem meanwhile_shared {lo : Local} (h : sh.shutdown = true → sh'.shutdown = true) :
    Meanwhile ⟨sh, lo⟩ ⟨sh', lo⟩ :=
  ⟨⟨rfl, rfl, fun _ => id, id, h⟩, id⟩

theorem LookupOutcome.meanwhile {options : ArticleSearchOptions} {v v' : View}
    {r : Except JsError (Option ArticleSearchResult)} (h : LookupOutcome options r v)
    (hm : Meanwhile v v') : LookupOutcome options r v' := by
  cases r with
  | error e => exact h.imp_right hm.client
  | ok r => exact ReadPost.grows h hm.toGrows

/-- What others may do to an in-flight search. -/
structure EntryKeeps (sh sh' : Shared) (e e' : InFlightSearch) : Prop where
  cacheKey : e'.cacheKey = e.cacheKey
  options : e'.options = e.options
  creator : e'.creator = e.creator
  promise : e'.promise = e.promise
  reads : e'.lo.reads = e.lo.reads
  meanwhile : Meanwhile ⟨sh, e.lo⟩ ⟨sh', e'.lo⟩

theorem EntryKeeps.shared (h : sh.shutdown = true → sh'.shutdown = true) (e : InFlightSearch) :
    EntryKeeps sh sh' e e :=
  ⟨rfl, rfl, rfl, rfl, rfl, meanwhile_shared h⟩

theorem EntryKnown.keep (h : EntryKnown settings honest W sh e) (hk : EntryKeeps sh sh' e e') :
    EntryKnown settings honest W sh' e' := by
  obtain ⟨hkey, -, -, hp, hr, hm⟩ := hk
  obtain ⟨cacheKey, options, lo, promise, subscribers, settled, creator, creatorAborted⟩ := e'
  cases hkey
  cases hp
  refine ⟨h.justified.grows hm.toGrows, ?_, by rw [hr]; exact h.reads⟩
  exact Host.parked_rely h.parked hm (fun _ hr => hr.grows hm.toGrows) (hm.provider.trans ·)

theorem LookupKnown.keep (h : LookupKnown settings honest W sh c) (ho : c'.options = c.options)
    (hl : c'.lookup = c.lookup) (hr : c'.lo.reads = c.lo.reads)
    (hm : Meanwhile ⟨sh, c.lo⟩ ⟨sh', c'.lo⟩) : LookupKnown settings honest W sh' c' := by
  obtain ⟨options, hasSignal, lo, lookup, wait, outcome⟩ := c'
  cases ho
  cases hl
  refine ⟨h.idle.grows hm.toGrows, ?_, by rw [hr]; exact h.reads⟩
  exact Host.parked_rely h.parked hm (fun _ hr => hr.meanwhile hm) id

/-- What stays of an in-flight search, whose work goes on only if it was replied to. -/
structure EntryGrows (replied : Prop) (e e' : InFlightSearch) : Prop where
  cacheKey : e'.cacheKey = e.cacheKey
  options : e'.options = e.options
  creator : e'.creator = e.creator
  provider : ∀ r, e.lo.provider = some r → e'.lo.provider = some r
  writes : ∀ w ∈ e.lo.writes, w ∈ e'.lo.writes
  ended : ∀ r, e.promise = .pure r → e'.promise = .pure r
  promise : ¬ replied → e'.promise = e.promise

theorem EntryGrows.refl (replied : Prop) (e : InFlightSearch) : EntryGrows replied e e :=
  ⟨rfl, rfl, rfl, fun _ => id, fun _ => id, fun _ => id, fun _ => rfl⟩

theorem EntryKeeps.grows (h : EntryKeeps sh sh' e e') (replied : Prop) :
    EntryGrows replied e e' where
  cacheKey := h.cacheKey
  options := h.options
  creator := h.creator
  provider _ hp := h.meanwhile.provider.trans hp
  writes w hw := by
    have : e'.lo.writes = e.lo.writes := h.meanwhile.writes
    rwa [this]
  ended _ hp := h.promise.trans hp
  promise _ := h.promise

/-- In-flight searches are never removed. -/
def EntriesGrow (replied : Nat → Prop) (entries entries' : List InFlightSearch) : Prop :=
  ∀ (n : Nat) e, entries[n]? = some e → ∃ e', entries'[n]? = some e' ∧ EntryGrows (replied n) e e'

theorem EntriesGrow.refl (replied : Nat → Prop) (entries : List InFlightSearch) :
    EntriesGrow replied entries entries :=
  fun _ e hn => ⟨e, hn, .refl _ e⟩

theorem EntriesGrow.set {entries : List InFlightSearch} (hn : entries[n]? = some e)
    (hg : EntryGrows (replied n) e e') : EntriesGrow replied entries (entries.set n e') := by
  intro m g hm
  exact getElem?_set_goes (R := fun m => EntryGrows (replied m)) hn hg (fun _ g _ => .refl _ g) hm

theorem EntriesGrow.append (replied : Nat → Prop) (entries : List InFlightSearch)
    (e : InFlightSearch) : EntriesGrow replied entries (entries ++ [e]) := by
  intro m g hm
  exact ⟨g, getElem?_append_old hm _, .refl _ g⟩

theorem CallOutcome.grow {entries entries' : List InFlightSearch}
    {r : Except JsError ArticleSearchResult} (h : CallOutcome entries c r)
    (hg : EntriesGrow replied entries entries') : CallOutcome entries' c r := by
  cases h with
  | cached hw hl => exact .cached hw hl
  | canceled hc => exact .canceled hc
  | delivered hw hn hp =>
    obtain ⟨e', hn', hg'⟩ := hg _ _ hn
    exact .delivered hw hn' (hg'.ended _ hp)

theorem Answered.grow {entries entries' : List InFlightSearch} (h : Answered entries c)
    (hg : EntriesGrow replied entries entries') : Answered entries' c where
  key w hw := by
    obtain ⟨e, hn, hk, hc⟩ := h.key w hw
    obtain ⟨e', hn', hg'⟩ := hg _ _ hn
    exact ⟨e', hn', hg'.cacheKey.trans hk, fun he => hg'.creator.trans (hc he)⟩
  outcome r hr := (h.outcome r hr).grow hg

theorem Known.mono (h : Known settings honest W s) (hW : ∀ r, W r → W' r) :
    Known settings honest W' s where
  entries e he := { h.entries e he with reads := fun r hr => hW r ((h.entries e he).reads r hr) }
  lookups c hc := { h.lookups c hc with reads := fun r hr => hW r ((h.lookups c hc).reads r hr) }
  answers := h.answers

/-! ## Every step keeps it -/

/-- One event. -/
structure Follows (settings : Settings) (honest : Bool) (W : JsString × Json → Prop)
    (replied : Nat → Prop) (s s' : Process) : Prop where
  known : Known settings honest W s'
  grow : EntriesGrow replied s.entries s'.entries

theorem Known.mem (h : Known settings honest W s) (hn : s.entries[n]? = some e) :
    EntryKnown settings honest W s.sh e :=
  h.entries e (List.mem_of_getElem? hn)

theorem EntryKnown.outcome {r : Except JsError ArticleSearchResult}
    (h : EntryKnown settings honest W sh e) (hp : e.promise = .pure r) :
    JobOutcome honest e.cacheKey r ⟨sh, e.lo⟩ := by
  have := h.parked
  rwa [hp] at this

/-- A call changes, and nothing else. -/
theorem Known.setCall (h : Known settings honest W s) (hl : LookupKnown settings honest W s.sh c)
    (ha : Answered s.entries c) : Follows settings honest W replied s (s.setCall i c) where
  known := ⟨h.entries, mem_set h.lookups hl, mem_set h.answers ha⟩
  grow := .refl _ _

/-- A call and an in-flight search change. -/
theorem Known.put (h : Known settings honest W s) (hn : s.entries[n]? = some e)
    (hk : EntryKeeps s.sh s.sh e e') (hl : LookupKnown settings honest W s.sh c)
    (ha : Answered (s.entries.set n e') c) :
    Follows settings honest W replied s ((s.setCall i c).setEntry n e') where
  known :=
    have hg : EntriesGrow replied s.entries (s.entries.set n e') := .set hn (hk.grows _)
    ⟨mem_set h.entries ((h.mem hn).keep hk), mem_set h.lookups hl,
      mem_set (fun c' hc' => (h.answers c' hc').grow hg) ha⟩
  grow := .set hn (hk.grows _)

/-- Time has passed for everybody. -/
theorem Known.shared (h : Known settings honest W s)
    (hsh : s.sh.shutdown = true → sh.shutdown = true) :
    Known settings honest W { s with sh := sh } where
  entries e he := (h.entries e he).keep (.shared hsh e)
  lookups c hc := (h.lookups c hc).keep rfl rfl rfl (meanwhile_shared hsh)
  answers := h.answers

/-! ### Calls -/

/-- A call that ends without a wait. -/
theorem Answered.settle {entries : List InFlightSearch} {r : Except JsError ArticleSearchResult}
    (hw : c.wait = none) (ho : c.outcome = none) (hr : CallOutcome entries (c.settle r) r) :
    Answered entries (c.settle r) where
  key w h := nomatch hw.symm.trans h
  outcome r' h := by
    simp only [Call.settle, ho, Option.none_or, Option.some.injEq] at h
    exact h ▸ hr

theorem LookupKnown.settle {r : Except JsError ArticleSearchResult}
    (h : LookupKnown settings honest W sh c) : LookupKnown settings honest W sh (c.settle r) :=
  h.keep rfl rfl rfl (.refl _)

/-- The call now waits for the search, or its signal was aborted. -/
theorem waitForInFlightSearch_known {entries : List InFlightSearch} {existing : Bool}
    (hl : LookupKnown settings honest W sh c) (hw : c.wait = none) (ho : c.outcome = none)
    (hd : waitForInFlightSearch c n existing e = (c', e')) (hn : entries[n]? = some e')
    (hk : e.cacheKey = searchCacheKey c.options)
    (hcreator : existing = false → e.creator = c.lo.id) :
    LookupKnown settings honest W sh c' ∧ Answered entries c' ∧ EntryKeeps sh sh e e' := by
  unfold waitForInFlightSearch at hd
  split at hd
  · rename_i hc
    obtain ⟨rfl, rfl⟩ := Prod.mk.inj hd
    exact ⟨hl.settle, .settle hw ho (.canceled hc), .shared id _⟩
  · obtain ⟨rfl, rfl⟩ := Prod.mk.inj hd
    refine ⟨hl.keep rfl rfl rfl (.refl _), ⟨?_, fun _ hr => nomatch ho.symm.trans hr⟩,
      rfl, rfl, rfl, rfl, rfl, .refl _⟩
    rintro w ⟨⟩
    exact ⟨_, hn, hk, hcreator⟩

/-- A new search, up to its first suspension. -/
theorem Known.create (h : Known settings honest W s) {cacheKey : JsString}
    (hd : createInFlightSearch settings platform leases honest s c cacheKey = (s', e)) :
    Follows settings honest W replied s s' ∧ (s.sh.shutdown = true → s'.sh.shutdown = true) ∧
      s'.calls = s.calls ∧ s'.entries = s.entries ++ [e] ∧ e.cacheKey = cacheKey ∧
      e.creator = c.lo.id := by
  obtain ⟨hinv, hparked⟩ := Host.advance_sound
    (wp_fetchArticlesFromUpstream settings platform honest leases c.options cacheKey
      (v := ⟨s.sh, .start s.entries.length c.lo.randoms c.lo.uuid⟩) ⟨rfl, rfl⟩)
  have hfwd := forward_advance W settings honest
    (fetchArticlesFromUpstream settings platform leases c.options cacheKey).run
    ⟨s.sh, .start s.entries.length c.lo.randoms c.lo.uuid⟩
  have hsh := fun hs : s.sh.shutdown = true => hfwd.shutdown.trans hs
  unfold createInFlightSearch at hd
  obtain ⟨rfl, rfl⟩ := Prod.mk.inj hd
  refine ⟨⟨⟨?_, ?_, ?_⟩, .append _ _ _⟩, hsh, rfl, rfl, rfl, rfl⟩
  · refine mem_append (fun e he => (h.entries e he).keep (.shared hsh e)) ⟨hinv, hparked, ?_⟩
    exact fun r hr => (hfwd.reads r hr).resolve_left nofun
  · exact fun c hc => (h.lookups c hc).keep rfl rfl rfl (meanwhile_shared hsh)
  · exact fun c hc => (h.answers c hc).grow (EntriesGrow.append replied _ _)

theorem Follows.trans {s1 : Process} (h : Follows settings honest W replied s s1)
    (h' : Follows settings honest W replied s1 s') : Follows settings honest W replied s s' where
  known := h'.known
  grow n e hn := by
    obtain ⟨e1, hn1, hg1⟩ := h.grow n e hn
    obtain ⟨e2, hn2, hg2⟩ := h'.grow n e1 hn1
    exact ⟨e2, hn2, hg2.cacheKey.trans hg1.cacheKey, hg2.options.trans hg1.options,
      hg2.creator.trans hg1.creator, fun r => hg2.provider r ∘ hg1.provider r,
      fun w => hg2.writes w ∘ hg1.writes w, fun r => hg2.ended r ∘ hg1.ended r,
      fun hr => (hg2.promise hr).trans (hg1.promise hr)⟩

theorem Known.join (hok : s.Ok) (h : Known settings honest W s)
    (hl : LookupKnown settings honest W s.sh c) (hw : c.wait = none) (ho : c.outcome = none) :
    Follows settings honest W replied s
      (joinInFlightSearch settings platform leases honest s i c) := by
  unfold joinInFlightSearch
  cases hmap : s.inFlightSearches (searchCacheKey c.options) with
  | some n =>
    obtain ⟨f, hf, hkey, -⟩ := hok.board.live _ n hmap
    obtain ⟨e, hn, rfl⟩ := Option.map_eq_some_iff.mp (List.getElem?_map.symm.trans hf)
    simp only [hmap, Option.bind_some, hn, Option.map_some]
    obtain ⟨c', e', hd⟩ : ∃ c' e', waitForInFlightSearch c n true e = (c', e') := ⟨_, _, rfl⟩
    have hn' : (s.entries.set n e')[n]? = some e' :=
      getElem?_set_here hn _
    obtain ⟨hl', ha, hk⟩ := waitForInFlightSearch_known hl hw ho hd hn' hkey nofun
    simp only [hd]
    exact h.put hn hk hl' ha
  | none =>
    simp only [hmap, Option.bind_none]
    obtain ⟨s1, e, hcreate⟩ : ∃ s1 e, createInFlightSearch settings platform leases honest s c
        (searchCacheKey c.options) = (s1, e) := ⟨_, _, rfl⟩
    obtain ⟨h1, hshutdown, hcalls, hentries, hkey, hcreator⟩ := h.create hcreate
    obtain ⟨c', e', hd⟩ : ∃ c' e', waitForInFlightSearch c s.entries.length false e = (c', e') :=
      ⟨_, _, rfl⟩
    have hn : s1.entries[s.entries.length]? = some e := by simp [hentries]
    have hn' : (s1.entries.set s.entries.length e')[s.entries.length]? = some e' :=
      getElem?_set_here hn _
    have hl1 : LookupKnown settings honest W s1.sh c :=
      hl.keep rfl rfl rfl (meanwhile_shared hshutdown)
    obtain ⟨hl', ha, hk⟩ := waitForInFlightSearch_known hl1 hw ho hd hn' hkey fun _ => hcreator
    simp only [hcreate, hd]
    exact h1.trans (h1.known.put hn hk hl' ha)

/-- A call whose lookup has just run. -/
theorem Known.continue (hok : s.Ok) (h : Known settings honest W s)
    (hl : LookupKnown settings honest W s.sh c) (hw : c.wait = none) (ho : c.outcome = none) :
    Follows settings honest W replied s
      (continueCall settings platform leases honest s i c) := by
  unfold continueCall
  split
  · rename_i e hlookup
    have hend : LookupOutcome c.options (.error e) ⟨s.sh, c.lo⟩ := by
      have := hl.parked
      rwa [hlookup] at this
    obtain ⟨rfl, hc⟩ := hend
    exact h.setCall hl.settle (.settle hw ho (.canceled hc))
  · rename_i cached hlookup
    exact h.setCall hl.settle (.settle hw ho (.cached hw hlookup))
  · exact h.join hok hl hw ho
  · refine h.setCall hl ⟨fun w h => (nomatch hw.symm.trans h), fun r h => (nomatch ho.symm.trans h)⟩

theorem Known.callReply {answer : (c : Command) → Option (Reply c)}
    {lookup : Prog Command Reply (Except JsError (Option ArticleSearchResult))} {v : View}
    (hok : s.Ok) (h : Known settings honest W s) (hi : s.calls[i]? = some c)
    (hW : Answers W answer)
    (hr : (jobHost settings honest).resume answer c.lookup ⟨s.sh, c.lo⟩ = some (lookup, v)) :
    Follows settings honest W replied s
      (continueCall settings platform leases honest { s with sh := v.sh } i
        { c with lo := v.lo, lookup := lookup }) := by
  have hmem := List.mem_of_getElem? hi
  obtain ⟨hw, ho⟩ := (hok.calls c hmem).looking fun r hl => by rw [hl] at hr; cases hr
  have hl := h.lookups c hmem
  have hfwd := forward_resume hW hr
  obtain ⟨hinv, hparked⟩ := Host.resume_sound hl.idle hl.parked hr
  have h1 : Known settings honest W { s with sh := v.sh } :=
    h.shared fun hs => hfwd.shutdown.trans hs
  have hl1 : LookupKnown settings honest W v.sh { c with lo := v.lo, lookup := lookup } :=
    ⟨hinv, hparked, fun r hr => (hfwd.reads r hr).elim (hl.reads r) id⟩
  have hnext : Follows settings honest W replied { s with sh := v.sh }
      (continueCall settings platform leases honest { s with sh := v.sh } i
        { c with lo := v.lo, lookup := lookup }) :=
    Known.continue ⟨hok.board, hok.calls, hok.entries⟩ h1 hl1 hw ho
  exact ⟨hnext.known, hnext.grow⟩

theorem Known.call (h : Known settings honest W s) (options : ArticleSearchOptions)
    (signal : Option Bool) (randoms : Nat → Rat) (uuid : JsString) :
    Follows settings honest W replied s
      (searchArticles settings platform leases honest s options signal randoms uuid) := by
  obtain ⟨c, heq, hopt, hw, hlo, hcases⟩ :=
    searchArticles_cases settings platform leases honest s options signal randoms uuid
  have hidle : Idle ⟨s.sh, c.lo⟩ := by rw [hlo]; exact ⟨rfl, rfl⟩
  have hreads : ∀ r ∈ c.lo.reads, W r := by rw [hlo]; exact nofun
  rw [heq]
  refine ⟨⟨h.entries, mem_append h.lookups ⟨hidle, ?_, hreads⟩,
    mem_append h.answers ⟨fun w h => (nomatch hw.symm.trans h), fun r hr => ?_⟩⟩, .refl _ _⟩
  · rcases hcases with ⟨hc, hl, -⟩ | ⟨-, hl, -⟩
    · rw [hl]
      exact ⟨rfl, hc⟩
    · rw [hl, ← hopt]
      have hwp : (jobHost settings honest).wp lookupContract
          (readCachedArticles (searchCacheKey c.options)).run
          (fun r v => lookupContract.inv v ∧ LookupOutcome c.options r v) ⟨s.sh, c.lo⟩ := by
        refine Host.wp_mono (wp_readArticles readable_lookup hidle) fun r v hr => ?_
        refine ⟨hidle.grows hr.1, ?_⟩
        cases r with
        | error e => exact hr.2.elim
        | ok r => exact hr.2
      exact (Host.advance_sound hwp).2
  · rcases hcases with ⟨hc, -, ho⟩ | ⟨-, -, ho⟩
    · rw [ho] at hr
      cases hr
      exact .canceled hc
    · exact nomatch ho.symm.trans hr

/-! ### In-flight searches -/

theorem Known.jobReply {answer : (c : Command) → Option (Reply c)}
    {promise : Prog Command Reply (Except JsError ArticleSearchResult)} {v : View}
    (h : Known settings honest W s) (hn : s.entries[n]? = some e) (hW : Answers W answer)
    (hreplied : replied n)
    (hr : (jobHost settings honest).resume answer e.promise ⟨s.sh, e.lo⟩ = some (promise, v)) :
    Follows settings honest W replied s
      ({ s with sh := v.sh }.setEntry n { e with lo := v.lo, promise := promise }) := by
  have he := h.mem hn
  have hfwd := forward_resume hW hr
  obtain ⟨hinv, hparked⟩ := Host.resume_sound he.justified he.parked hr
  have h1 : Known settings honest W { s with sh := v.sh } :=
    h.shared fun hs => hfwd.shutdown.trans hs
  have hgrow : EntriesGrow replied s.entries
      (s.entries.set n { e with lo := v.lo, promise := promise }) := by
    refine .set hn ⟨rfl, rfl, rfl, hfwd.provider, hfwd.writes, fun r hp => ?_,
      fun hno => absurd hreplied hno⟩
    rw [hp] at hr
    cases hr
  refine ⟨⟨mem_set h1.entries ⟨hinv, hparked, fun r hr => ?_⟩, h1.lookups, fun c hc => ?_⟩, hgrow⟩
  · exact (hfwd.reads r hr).elim (he.reads r) id
  · exact (h1.answers c hc).grow hgrow

/-- Others change an in-flight search. -/
theorem Known.setEntry {inFlight : JsString → Option Nat} (h : Known settings honest W s)
    (hn : s.entries[n]? = some e) (hk : EntryKeeps s.sh s.sh e e') :
    Follows settings honest W replied s
      { s with entries := s.entries.set n e', inFlightSearches := inFlight } where
  known :=
    have hg : EntriesGrow replied s.entries (s.entries.set n e') := .set hn (hk.grows _)
    ⟨mem_set h.entries ((h.mem hn).keep hk), h.lookups, fun c hc => (h.answers c hc).grow hg⟩
  grow := .set hn (hk.grows _)

theorem fireDeadline_keeps {now : Nat} {lo : Local} (h : fireDeadline now e.lo = some lo) :
    EntryKeeps sh sh e { e with lo := lo } := by
  unfold fireDeadline at h
  split at h
  · cases h
  · split at h <;> cases h
    exact ⟨rfl, rfl, rfl, rfl, rfl, ⟨rfl, rfl, fun _ => id, id, id⟩, fun _ => rfl⟩

theorem renew_keeps {result : Except JsError Bool} {lo : Local} (h : renew result e.lo = some lo) :
    EntryKeeps sh sh e { e with lo := lo } := by
  obtain ⟨heartbeat, -, rfl⟩ := Option.map_eq_some_iff.mp h
  split <;> exact ⟨rfl, rfl, rfl, rfl, rfl, ⟨rfl, rfl, fun _ => id, id, id⟩, id⟩

/-! ### Ends -/

theorem unsubscribe_keeps (e : InFlightSearch) (sh : Shared) :
    EntryKeeps sh sh e e.unsubscribe := by
  unfold InFlightSearch.unsubscribe
  simp only
  split
  · exact ⟨rfl, rfl, rfl, rfl, rfl, ⟨rfl, rfl, fun _ => id, fun _ => rfl, id⟩, id⟩
  · exact ⟨rfl, rfl, rfl, rfl, rfl, .refl _⟩

theorem release_keeps (w : Wait) (e : InFlightSearch) (sh : Shared) :
    (release w e).1.entry = w.entry ∧ (release w e).1.existing = w.existing ∧
      EntryKeeps sh sh e (release w e).2 := by
  unfold release
  split
  · exact ⟨rfl, rfl, .shared id e⟩
  · exact ⟨rfl, rfl, unsubscribe_keeps e sh⟩

/-- The call's wait goes on for the same search. -/
theorem Answered.rewait {entries : List InFlightSearch} {w w' : Wait} (h : Answered entries c)
    (hw : c.wait = some w) (hw' : c'.wait = some w') (hentry : w'.entry = w.entry)
    (hexisting : w'.existing = w.existing) (hopt : c'.options = c.options)
    (hid : c'.lo.id = c.lo.id) (hclient : c.lo.client = true → c'.lo.client = true)
    (ho : ∀ r, c'.outcome = some r → c.outcome = some r ∨ CallOutcome entries c' r) :
    Answered entries c' where
  key w1 h1 := by
    cases hw'.symm.trans h1
    obtain ⟨e, hn, hk, hc⟩ := h.key w hw
    rw [hentry, hexisting, hopt, hid]
    exact ⟨e, hn, hk, hc⟩
  outcome r hr := by
    rcases ho r hr with hr | hr
    · cases h.outcome r hr with
      | cached hw1 => exact nomatch hw.symm.trans hw1
      | canceled hc => exact .canceled (hclient hc)
      | delivered hw1 hn hp =>
        cases hw.symm.trans hw1
        rw [← hexisting]
        exact .delivered hw' (hentry ▸ hn) hp
    · exact hr

theorem Known.deliver {w : Wait} {r : Except JsError ArticleSearchResult}
    (h : Known settings honest W s) (hi : s.calls[i]? = some c) (hw : c.wait = some w)
    (hn : s.entries[w.entry]? = some e) (hp : e.promise = .pure r) :
    Follows settings honest W replied s ((s.setCall i (Services.deliver c w e r).1).setEntry
      w.entry (Services.deliver c w e r).2) := by
  have hmem := List.mem_of_getElem? hi
  obtain ⟨hentry, hexisting, hk⟩ := release_keeps w e s.sh
  have hgrow : EntriesGrow replied s.entries (s.entries.set w.entry (release w e).2) :=
    .set hn (hk.grows _)
  have hn' : (s.entries.set w.entry (release w e).2)[(release w e).1.entry]? =
      some (release w e).2 := by
    rw [hentry]
    exact getElem?_set_here hn _
  refine h.put hn hk ((h.lookups c hmem).keep rfl rfl rfl (.refl _)) ?_
  refine ((h.answers c hmem).grow hgrow).rewait hw rfl hentry hexisting rfl rfl id fun r' hr' => ?_
  change c.outcome.or _ = some r' at hr'
  cases ho : c.outcome with
  | some r0 => exact .inl (by rwa [ho] at hr')
  | none =>
    rw [ho] at hr'
    cases hr'
    exact .inr (.delivered (w := { (release w e).1 with delivered := true }) rfl hn'
      (hk.promise.trans hp))

theorem Known.disconnect (hok : s.Ok) (h : Known settings honest W s) (hi : s.calls[i]? = some c)
    (hc : c.hasSignal = true) :
    Follows settings honest W replied s (Services.disconnect s i c) := by
  have hmem := List.mem_of_getElem? hi
  have hgone : Meanwhile ⟨s.sh, c.lo⟩ ⟨s.sh, { c.lo with client := true }⟩ :=
    ⟨⟨rfl, rfl, fun _ => id, fun _ => rfl, id⟩, id⟩
  by_cases hwait : ∃ w, c.wait = some w ∧ w.listening = true
  · obtain ⟨w, hw, hl⟩ := hwait
    have hunreleased : w.released = false := by
      have := (hok.calls c hmem).listening w hw
      rw [hc, hl] at this
      simpa using this.symm
    obtain ⟨e, hn, -, -⟩ := (h.answers c hmem).key w hw
    have hk := unsubscribe_keeps e s.sh
    have hgrow : EntriesGrow replied s.entries (s.entries.set w.entry e.unsubscribe) :=
      .set hn (hk.grows _)
    rw [disconnect_listening hw hl hunreleased hn]
    refine h.put hn hk ((h.lookups c hmem).keep rfl rfl rfl hgone) ?_
    refine ((h.answers c hmem).grow hgrow).rewait hw rfl rfl rfl rfl rfl (fun _ => rfl)
      fun r hr => ?_
    change c.outcome.or _ = some r at hr
    cases ho : c.outcome with
    | some r0 => exact .inl (by rwa [ho] at hr)
    | none =>
      rw [ho] at hr
      cases hr
      exact .inr (.canceled rfl)
  · have hdeaf : ∀ w, c.wait = some w → w.listening = false := fun w hw =>
      Bool.eq_false_iff.mpr fun hl => hwait ⟨w, hw, hl⟩
    rw [disconnect_deaf hdeaf]
    refine h.setCall ((h.lookups c hmem).keep rfl rfl rfl hgone)
      ⟨(h.answers c hmem).key, fun r hr => ?_⟩
    cases (h.answers c hmem).outcome r hr with
    | cached hw hl => exact .cached hw hl
    | canceled => exact .canceled rfl
    | delivered hw hn hp => exact .delivered hw hn hp

/-! ## Every run -/

/-- The in-flight search whose work an event continues. -/
def Event.repliesTo : Event → Nat → Prop
  | .jobReply n _, m => n = m
  | _, _ => False

/-- What the store returns in an event. -/
def Event.Answers (W : JsString × Json → Prop) : Event → Prop
  | .callReply _ answer => Services.Answers W answer
  | .jobReply _ answer => Services.Answers W answer
  | _ => True

theorem step_follows {ev : Event} (hok : s.Ok) (h : Known settings honest W s)
    (hW : ev.Answers W) (hs : step settings platform leases honest s ev = some s') :
    Follows settings honest W ev.repliesTo s s' := by
  cases ev with
  | call options signal randoms uuid =>
    cases hs
    exact h.call options signal randoms uuid
  | callReply i answer =>
    obtain ⟨c, lookup, v, hi, hr, rfl⟩ := step_callReply hs
    exact h.callReply hok hi hW hr
  | jobReply n answer =>
    obtain ⟨e, promise, v, hn, hr, rfl⟩ := step_jobReply hs
    exact h.jobReply hn hW rfl hr
  | markSettled n =>
    obtain ⟨e, r, hn, hp, hsettled, rfl⟩ := step_markSettled hs
    rw [markInFlightSettled_eq hok hn hsettled]
    exact h.setEntry hn ⟨rfl, rfl, rfl, rfl, rfl, .refl _⟩
  | deliver i =>
    obtain ⟨c, w, e, r, hi, hw, hn, hp, -, -, rfl⟩ := step_deliver hs
    exact h.deliver hi hw hn hp
  | disconnect i =>
    obtain ⟨c, hi, hsignal, rfl⟩ := step_disconnect hs
    exact h.disconnect hok hi hsignal
  | shutdown =>
    cases hs
    exact ⟨h.shared fun _ => rfl, .refl _ _⟩
  | deadline n =>
    obtain ⟨e, lo, hn, hlo, rfl⟩ := step_deadline hs
    exact h.setEntry hn (fireDeadline_keeps hlo)
  | renewed n result =>
    obtain ⟨e, lo, hn, hlo, rfl⟩ := step_renewed hs
    exact h.setEntry hn (renew_keeps hlo)
  | elapse ms =>
    cases hs
    exact ⟨h.shared id, .refl _ _⟩

theorem Known.initial : Known settings honest W .initial where
  entries _ h := nomatch h
  lookups _ h := nomatch h
  answers _ h := nomatch h

theorem known_of_reachable (h : Reachable (step settings platform leases honest) .initial s) :
    s.Ok ∧ Known settings honest (fun _ => True) s := by
  refine h.invariant (P := fun s => s.Ok ∧ Known settings honest (fun _ => True) s)
    ⟨.initial, .initial⟩ fun s ev s' hs he => ?_
  have hW : ev.Answers fun _ => True := by
    cases ev <;> first | trivial | exact fun _ _ _ => trivial
  exact ⟨(step_advances hs.1 he).ok hs.1, (step_follows hs.1 hs.2 hW he).known⟩

end NewsApi.Services
