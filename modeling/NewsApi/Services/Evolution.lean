import NewsApi.Services.Outcomes
import NewsApi.Services.Subscribers

/-! # What one event does to searches and calls

The work of a search goes on only when it is replied to, and a call comes to
wait only when its lookup has ended. A search is created for a key that no
search is in flight for. -/
namespace NewsApi.Services
open NewsApi.Async NewsApi.Text NewsApi.Types NewsApi.Config NewsApi.Errors
open NewsApi.Runtime NewsApi.Collections

variable (settings : Settings) (platform : Platform) (leases honest : Bool)

/-- The search is new and has come to its first suspension. -/
structure Born (s s' : Process) (n : Nat) (e : InFlightSearch) : Prop where
  index : n = s.entries.length
  key : e.cacheKey = searchCacheKey e.options
  unmapped : s.inFlightSearches e.cacheKey = none
  started : ∃ sh randoms uuid, (jobHost settings honest).advance
    (fetchArticlesFromUpstream settings platform leases e.options e.cacheKey).run
      ⟨sh, .start n randoms uuid⟩ = (e.promise, ⟨s'.sh, e.lo⟩)

/-- What a call waits for once its lookup has ended. -/
inductive Turns (s : Process) (c : Call) : Option Wait → Prop
  | alone : Turns s c none
  | joined (w : Wait) (hmap : s.inFlightSearches (searchCacheKey c.options) = some w.entry)
    (he : w.existing = true) : Turns s c (some w)
  | created (w : Wait) (hw : w.entry = s.entries.length) : Turns s c (some w)

/-- What others may do to a call, and a call to itself after its lookup. -/
structure CallKeeps (c c' : Call) : Prop where
  options : c'.options = c.options
  lookup : c'.lookup = c.lookup
  reads : c'.lo.reads = c.lo.reads
  wait : ∀ w', c'.wait = some w' → ∃ w, c.wait = some w ∧ w'.entry = w.entry ∧
    w'.existing = w.existing

variable {settings platform leases honest}
variable {s s' : Process} {c c' : Call} {e e' : InFlightSearch} {i n : Nat}

theorem CallKeeps.refl (c : Call) : CallKeeps c c :=
  ⟨rfl, rfl, rfl, fun w hw => ⟨w, hw, rfl, rfl⟩⟩

/-- Every search of `s` is still there, and nothing was done for it. -/
def EntriesKept (s s' : Process) : Prop :=
  ∀ (n : Nat) e, s.entries[n]? = some e →
    ∃ e', s'.entries[n]? = some e' ∧ EntryKeeps s.sh s'.sh e e'

theorem EntryKeeps.trans {sh sh' sh'' : Shared} {e'' : InFlightSearch}
    (h : EntryKeeps sh sh' e e') (h' : EntryKeeps sh' sh'' e' e'') : EntryKeeps sh sh'' e e'' where
  cacheKey := h'.cacheKey.trans h.cacheKey
  options := h'.options.trans h.options
  creator := h'.creator.trans h.creator
  promise := h'.promise.trans h.promise
  reads := h'.reads.trans h.reads
  meanwhile := h.meanwhile.trans h'.meanwhile

/-- A search is changed by others. -/
theorem entriesKept_set (hn : s.entries[n]? = some e) (hk : EntryKeeps s.sh s'.sh e e')
    (hes : s'.entries = s.entries.set n e') : EntriesKept s s' := by
  intro m g hm
  rw [hes]
  exact getElem?_set_goes (R := fun _ => EntryKeeps s.sh s'.sh) hn hk
    (fun _ g _ => .shared hk.meanwhile.shutdown g) hm

theorem entriesKept_append {es : List InFlightSearch}
    (hsh : s.sh.shutdown = true → s'.sh.shutdown = true) (hes : s'.entries = s.entries ++ es) :
    EntriesKept s s' := by
  intro m g hm
  rw [hes]
  exact ⟨g, getElem?_append_old hm es, .shared hsh g⟩

theorem entriesKept_same (hsh : s.sh.shutdown = true → s'.sh.shutdown = true)
    (hes : s'.entries = s.entries) : EntriesKept s s' :=
  entriesKept_append hsh (hes.trans (List.append_nil _).symm)

variable (settings platform leases honest) in
/-- Searches that were not there before are new. -/
def OnlyBorn (s s' : Process) : Prop :=
  ∀ (n : Nat) e, s'.entries[n]? = some e → s.entries[n]? = none →
    Born settings platform leases honest s s' n e

theorem onlyBorn_of_length (h : s'.entries.length = s.entries.length) :
    OnlyBorn settings platform leases honest s s' := by
  intro n e hn hnone
  have := (List.getElem?_eq_some_iff.mp hn).1
  have := List.getElem?_eq_none_iff.mp hnone
  omega

/-- A call waits for a search from now on, unless its signal is aborted. -/
theorem waitForInFlightSearch_cases (c : Call) (n : Nat) (existing : Bool) (e : InFlightSearch) :
    ∃ c' e', waitForInFlightSearch c n existing e = (c', e') ∧ c'.options = c.options ∧
      c'.lookup = c.lookup ∧ c'.lo = c.lo ∧ (∀ sh, EntryKeeps sh sh e e') ∧ e'.lo = e.lo ∧
      (c'.wait = c.wait ∨ ∃ w, c'.wait = some w ∧ w.entry = n ∧ w.existing = existing) := by
  unfold waitForInFlightSearch
  split
  · exact ⟨_, _, rfl, rfl, rfl, rfl, fun sh => .shared id e, rfl, .inl rfl⟩
  · exact ⟨_, _, rfl, rfl, rfl, rfl, fun sh => ⟨rfl, rfl, rfl, rfl, rfl, .refl _⟩, rfl,
      .inr ⟨_, rfl, rfl, rfl⟩⟩

variable (settings platform leases honest) in
/-- A call whose lookup has just run. -/
structure Continued (s s' : Process) (i : Nat) (c : Call) : Prop where
  call : ∃ c', s'.calls = s.calls.set i c' ∧ c'.options = c.options ∧ c'.lookup = c.lookup ∧
    c'.lo = c.lo ∧ Turns s c c'.wait
  kept : EntriesKept s s'
  born : OnlyBorn settings platform leases honest s s'

theorem continued_same (hc : s'.calls = s.calls.set i c') (ho : c'.options = c.options)
    (hl : c'.lookup = c.lookup) (hlo : c'.lo = c.lo) (hw : c'.wait = none) (hsh : s'.sh = s.sh)
    (hes : s'.entries = s.entries) : Continued settings platform leases honest s s' i c where
  call := ⟨c', hc, ho, hl, hlo, hw ▸ .alone⟩
  kept := entriesKept_same (by rw [hsh]; exact id) hes
  born := onlyBorn_of_length (by rw [hes])

/-- The search that is created, before its creator waits for it. -/
theorem createInFlightSearch_born (settings : Settings) (platform : Platform)
    (leases honest : Bool) (s : Process) (c : Call) :
    ∃ e sh, createInFlightSearch settings platform leases honest s c (searchCacheKey c.options) =
        ({ s with
            sh := sh
            entries := s.entries ++ [e]
            inFlightSearches := Function.update s.inFlightSearches (searchCacheKey c.options)
              (some s.entries.length) }, e) ∧
      (s.sh.shutdown = true → sh.shutdown = true) ∧ e.cacheKey = searchCacheKey c.options ∧
      e.options = c.options ∧ (jobHost settings honest).advance
        (fetchArticlesFromUpstream settings platform leases c.options
          (searchCacheKey c.options)).run
        ⟨s.sh, .start s.entries.length c.lo.randoms c.lo.uuid⟩ = (e.promise, ⟨sh, e.lo⟩) := by
  have hfwd := forward_advance (fun _ => True) settings honest
    (fetchArticlesFromUpstream settings platform leases c.options (searchCacheKey c.options)).run
    ⟨s.sh, .start s.entries.length c.lo.randoms c.lo.uuid⟩
  exact ⟨_, _, rfl, fun h => hfwd.shutdown.trans h, rfl, rfl, rfl⟩

theorem joinInFlightSearch_continued (hok : s.Ok) (hw : c.wait = none) :
    Continued settings platform leases honest s
      (joinInFlightSearch settings platform leases honest s i c) i c := by
  unfold joinInFlightSearch
  cases hmap : s.inFlightSearches (searchCacheKey c.options) with
  | some n =>
    obtain ⟨f, hf, -, -⟩ := hok.board.live _ n hmap
    obtain ⟨e, hn, rfl⟩ := Option.map_eq_some_iff.mp (List.getElem?_map.symm.trans hf)
    obtain ⟨c', e', hd, ho, hl, hlo, hk, -, hwait⟩ := waitForInFlightSearch_cases c n true e
    simp only [hmap, Option.bind_some, hn, Option.map_some, hd]
    refine ⟨⟨c', rfl, ho, hl, hlo, ?_⟩, entriesKept_set hn (hk s.sh) rfl,
      onlyBorn_of_length (List.length_set ..)⟩
    rcases hwait with hwait | ⟨w, hwait, rfl, he⟩
    · rw [hwait, hw]
      exact .alone
    · rw [hwait]
      exact .joined w hmap he
  | none =>
    obtain ⟨e, sh, hcreate, hsh, hkey, hopt, hstart⟩ :=
      createInFlightSearch_born settings platform leases honest s c
    obtain ⟨c', e', hd, ho, hl, hlo, hk, helo, hwait⟩ :=
      waitForInFlightSearch_cases c s.entries.length false e
    have hk := hk sh
    simp only [hmap, Option.bind_none, hcreate, hd]
    have hset : (s.entries ++ [e]).set s.entries.length e' = s.entries ++ [e'] := by simp
    refine ⟨⟨c', rfl, ho, hl, hlo, ?_⟩, entriesKept_append hsh hset, ?_⟩
    · rcases hwait with hwait | ⟨w, hwait, hentry, -⟩
      · rw [hwait, hw]
        exact .alone
      · rw [hwait]
        exact .created w hentry
    · intro n g hn hnone
      have hget : (s.entries ++ [e'])[n]? = some g := hset ▸ hn
      have hlen := List.getElem?_eq_none_iff.mp hnone
      rw [List.getElem?_append_right hlen] at hget
      obtain ⟨hlt, rfl⟩ := List.getElem?_eq_some_iff.mp hget
      have hindex : n = s.entries.length := by simp at hlt; omega
      have hg : ∀ (h : n - s.entries.length < [e'].length), [e'][n - s.entries.length] = e' := by
        simp
      rw [hg]
      refine ⟨hindex, ?_, ?_, s.sh, c.lo.randoms, c.lo.uuid, ?_⟩
      · rw [hk.cacheKey, hk.options, hkey, hopt]
      · rw [hk.cacheKey, hkey]
        exact hmap
      · rw [hindex, hk.cacheKey, hk.options, hk.promise, helo, hkey, hopt]
        exact hstart

theorem continueCall_continued (hok : s.Ok) (hw : c.wait = none) :
    Continued settings platform leases honest s
      (continueCall settings platform leases honest s i c) i c := by
  unfold continueCall
  split
  · exact continued_same rfl rfl rfl rfl hw rfl rfl
  · exact continued_same rfl rfl rfl rfl hw rfl rfl
  · exact joinInFlightSearch_continued hok hw
  · exact continued_same rfl rfl rfl rfl hw rfl rfl

/-! ## Every event -/

variable (settings honest) in
/-- What an event does to a call. -/
inductive CallMoves (s : Process) (ev : Event) (i : Nat) (c c' : Call) : Prop
  | keeps (hk : CallKeeps c c')
  | looked (answer : (c : Command) → Option (Reply c)) (v : View) (hev : ev = .callReply i answer)
    (hr : (jobHost settings honest).resume answer c.lookup ⟨s.sh, c.lo⟩ = some (c'.lookup, v))
    (hlo : c'.lo = v.lo) (ho : c'.options = c.options) (ht : Turns s c c'.wait)

/-- A call that has just arrived. -/
structure Arrived (s : Process) (i : Nat) (c : Call) : Prop where
  index : i = s.calls.length
  wait : c.wait = none
  reads : c.lo.reads = []
  lookup : c.lookup = .pure (.error .requestAborted) ∨
    c.lookup = (readCachedArticles (searchCacheKey c.options)).run

variable (settings honest) in
structure CallsEvolve (s s' : Process) (ev : Event) : Prop where
  moved : ∀ (i : Nat) c, s.calls[i]? = some c →
    ∃ c', s'.calls[i]? = some c' ∧ CallMoves settings honest s ev i c c'
  arrived : ∀ (i : Nat) c', s'.calls[i]? = some c' → s.calls[i]? = none → Arrived s i c'

variable (settings platform leases honest) in
structure Evolves (s s' : Process) (ev : Event) : Prop where
  kept : (∀ n answer, ev ≠ .jobReply n answer) → EntriesKept s s'
  born : OnlyBorn settings platform leases honest s s'
  calls : CallsEvolve settings honest s s' ev

variable {ev : Event}

/-- No call but `i` changes. -/
theorem calls_set (hi : s.calls[i]? = some c) (hm : CallMoves settings honest s ev i c c')
    (hcs : s'.calls = s.calls.set i c') : CallsEvolve settings honest s s' ev := by
  refine ⟨?_, ?_⟩ <;> rw [hcs]
  · intro j d hj
    exact getElem?_set_goes (R := CallMoves settings honest s ev) hi hm
      (fun _ d _ => .keeps (.refl d)) hj
  · intro j d' hj hnone
    have := (List.getElem?_eq_some_iff.mp hj).1
    have := List.getElem?_eq_none_iff.mp hnone
    simp only [List.length_set] at *
    omega

theorem calls_same (hcs : s'.calls = s.calls) : CallsEvolve settings honest s s' ev := by
  refine ⟨?_, ?_⟩ <;> rw [hcs]
  · exact fun j d hj => ⟨d, hj, .keeps (.refl d)⟩
  · intro j d' hj hnone
    cases hj.symm.trans hnone

/-- Only searches in flight change, and nothing is done for them. -/
theorem evolves_set (hn : s.entries[n]? = some e)
    (hk : EntryKeeps s.sh s'.sh e e') (hes : s'.entries = s.entries.set n e')
    (hcs : s'.calls = s.calls) : Evolves settings platform leases honest s s' ev where
  kept _ := entriesKept_set hn hk hes
  born := onlyBorn_of_length (by rw [hes, List.length_set])
  calls := calls_same hcs

/-- Nobody moves. -/
theorem evolves_shared (hsh : s.sh.shutdown = true → s'.sh.shutdown = true)
    (hes : s'.entries = s.entries) (hcs : s'.calls = s.calls) :
    Evolves settings platform leases honest s s' ev where
  kept _ := entriesKept_same hsh hes
  born := onlyBorn_of_length (by rw [hes])
  calls := calls_same hcs

theorem evolves_call (options : ArticleSearchOptions) (signal : Option Bool)
    (randoms : Nat → Rat) (uuid : JsString) :
    Evolves settings platform leases honest s
      (searchArticles settings platform leases honest s options signal randoms uuid)
      (.call options signal randoms uuid) := by
  obtain ⟨c, heq, hopt, hw, hlo, hcases⟩ :=
    searchArticles_cases settings platform leases honest s options signal randoms uuid
  rw [heq]
  refine ⟨fun _ => entriesKept_same id rfl, onlyBorn_of_length rfl, fun i d hi => ⟨d, ?_,
    .keeps (.refl d)⟩, fun i d hi hnone => ?_⟩
  · exact getElem?_append_old hi _
  · have hlen := List.getElem?_eq_none_iff.mp hnone
    have hlt := (List.getElem?_eq_some_iff.mp hi).1
    have hindex : i = s.calls.length := by simp at hlt; omega
    subst hindex
    rw [List.getElem?_concat_length] at hi
    obtain rfl := Option.some.inj hi
    refine ⟨rfl, hw, by rw [hlo]; rfl, ?_⟩
    rcases hcases with ⟨-, hl, -⟩ | ⟨-, hl, -⟩
    · exact .inl hl
    · exact .inr (by rw [hl, hopt])

theorem evolves_callReply {answer : (c : Command) → Option (Reply c)}
    {lookup : Prog Command Reply (Except JsError (Option ArticleSearchResult))} {v : View}
    (hok : s.Ok) (hi : s.calls[i]? = some c)
    (hr : (jobHost settings honest).resume answer c.lookup ⟨s.sh, c.lo⟩ = some (lookup, v)) :
    Evolves settings platform leases honest s
      (continueCall settings platform leases honest { s with sh := v.sh } i
        { c with lo := v.lo, lookup := lookup }) (.callReply i answer) := by
  obtain ⟨hw, -⟩ := (hok.calls c (List.mem_of_getElem? hi)).looking fun r hl => by
    rw [hl] at hr
    cases hr
  have hsh : s.sh.shutdown = true → v.sh.shutdown = true := fun h =>
    (forward_resume_any hr).shutdown.trans h
  have hcont : Continued settings platform leases honest { s with sh := v.sh }
      (continueCall settings platform leases honest { s with sh := v.sh } i
        { c with lo := v.lo, lookup := lookup }) i { c with lo := v.lo, lookup := lookup } :=
    continueCall_continued ⟨hok.board, hok.calls, hok.entries⟩ hw
  obtain ⟨c', hcs, ho, hl, hlo, ht⟩ := hcont.call
  have hmoves : CallMoves settings honest s (.callReply i answer) i c c' := by
    refine .looked answer v rfl (by rw [hl]; exact hr) hlo ho ?_
    generalize c'.wait = wait at ht ⊢
    cases ht with
    | alone => exact .alone
    | joined w hmap he => exact .joined w hmap he
    | created w hw => exact .created w hw
  refine ⟨fun _ n e hn => ?_, fun n e hn hnone => ?_, calls_set hi hmoves hcs⟩
  · obtain ⟨e', hn', hk⟩ := hcont.kept n e hn
    exact ⟨e', hn', (EntryKeeps.shared hsh e).trans hk⟩
  · obtain ⟨hindex, hkey, hmap, hstart⟩ := hcont.born n e hn hnone
    exact ⟨hindex, hkey, hmap, hstart⟩

theorem deliver_keeps {w : Wait} {r : Except JsError ArticleSearchResult}
    (hw : c.wait = some w) : CallKeeps c (deliver c w e r).1 := by
  obtain ⟨hentry, hexisting, -⟩ := release_keeps w e Shared.initial
  refine ⟨rfl, rfl, rfl, fun w' hw' => ⟨w, hw, ?_⟩⟩
  cases hw'
  exact ⟨hentry, hexisting⟩

theorem evolves_disconnect (hok : s.Ok) (hi : s.calls[i]? = some c)
    (hc : c.hasSignal = true) (hlive : ∀ w, c.wait = some w → ∃ e, s.entries[w.entry]? = some e) :
    Evolves settings platform leases honest s (disconnect s i c) ev := by
  by_cases hwait : ∃ w, c.wait = some w ∧ w.listening = true
  · obtain ⟨w, hw, hl⟩ := hwait
    have hunreleased : w.released = false := by
      have := (hok.calls c (List.mem_of_getElem? hi)).listening w hw
      rw [hc, hl] at this
      simpa using this.symm
    obtain ⟨e, hn⟩ := hlive w hw
    rw [disconnect_listening hw hl hunreleased hn]
    have hkeeps : CallKeeps c { c with
        lo.client := true
        wait := some { w with released := true, listening := false }
        outcome := c.outcome.or (some (.error .requestAborted)) } := by
      refine ⟨rfl, rfl, rfl, fun w' hw' => ⟨w, hw, ?_⟩⟩
      cases hw'
      exact ⟨rfl, rfl⟩
    exact ⟨fun _ => entriesKept_set hn (unsubscribe_keeps e s.sh) rfl,
      onlyBorn_of_length (List.length_set ..), calls_set hi (.keeps hkeeps) rfl⟩
  · have hdeaf : ∀ w, c.wait = some w → w.listening = false := fun w hw =>
      Bool.eq_false_iff.mpr fun hl => hwait ⟨w, hw, hl⟩
    rw [disconnect_deaf hdeaf]
    have hkeeps : CallKeeps c { c with lo.client := true } :=
      ⟨rfl, rfl, rfl, fun w hw => ⟨w, hw, rfl, rfl⟩⟩
    exact ⟨fun _ => entriesKept_same id rfl, onlyBorn_of_length rfl,
      calls_set hi (.keeps hkeeps) rfl⟩

theorem step_evolves {W : JsString × Json → Prop} (hok : s.Ok)
    (h : Known settings honest W s) (hs : step settings platform leases honest s ev = some s') :
    Evolves settings platform leases honest s s' ev := by
  cases ev with
  | call options signal randoms uuid =>
    cases hs
    exact evolves_call options signal randoms uuid
  | callReply i answer =>
    obtain ⟨c, lookup, v, hi, hr, rfl⟩ := step_callReply hs
    exact evolves_callReply hok hi hr
  | jobReply n answer =>
    obtain ⟨e, promise, v, hn, hr, rfl⟩ := step_jobReply hs
    exact ⟨fun h => absurd rfl (h n answer), onlyBorn_of_length (List.length_set ..),
      calls_same rfl⟩
  | markSettled n =>
    obtain ⟨e, r, hn, hp, hsettled, rfl⟩ := step_markSettled hs
    rw [markInFlightSettled_eq hok hn hsettled]
    have hk : EntryKeeps s.sh s.sh e { e with settled := true } :=
      ⟨rfl, rfl, rfl, rfl, rfl, .refl _⟩
    exact evolves_set hn hk rfl rfl
  | deliver i =>
    obtain ⟨c, w, e, r, hi, hw, hn, hp, -, -, rfl⟩ := step_deliver hs
    obtain ⟨-, -, hk⟩ := release_keeps w e s.sh
    have hm := deliver_keeps (e := e) (r := r) hw
    exact ⟨fun _ => entriesKept_set hn hk rfl, onlyBorn_of_length (List.length_set ..),
      calls_set hi (.keeps hm) rfl⟩
  | disconnect i =>
    obtain ⟨c, hi, hsignal, rfl⟩ := step_disconnect hs
    refine evolves_disconnect hok hi hsignal fun w hw => ?_
    obtain ⟨e, hn, -⟩ := (h.answers c (List.mem_of_getElem? hi)).key w hw
    exact ⟨e, hn⟩
  | shutdown =>
    cases hs
    exact evolves_shared (fun _ => rfl) rfl rfl
  | deadline n =>
    obtain ⟨e, lo, hn, hlo, rfl⟩ := step_deadline hs
    exact evolves_set hn (fireDeadline_keeps hlo) rfl rfl
  | renewed n result =>
    obtain ⟨e, lo, hn, hlo, rfl⟩ := step_renewed hs
    exact evolves_set hn (renew_keeps hlo) rfl rfl
  | elapse ms =>
    cases hs
    exact evolves_shared id rfl rfl

end NewsApi.Services
