import NewsApi.Async.SingleFlight
import NewsApi.Services.Process

/-! # The accounts of a process

A process refines the shared flights of `AsyncM.SingleFlight`: its in-flight
searches are the flights, its calls the callers. Every event is one step there
or none, so the accounts are kept in every run. -/
namespace NewsApi.Services
open NewsApi.Async NewsApi.Text NewsApi.Types NewsApi.Config NewsApi.Errors
open NewsApi.Runtime NewsApi.Async.SingleFlight

def Call.stage (c : Call) : Stage :=
  match c.wait, c.outcome with
  | none, none => .looking
  | none, some _ => .ended
  | some w, none => .waiting w.entry w.foundAborted
  | some w, some _ => .released w.entry w.foundAborted

def Call.caller (c : Call) : Caller := ⟨c.lo.client, c.stage⟩

def InFlightSearch.flight (e : InFlightSearch) : Flight JsString where
  key := e.cacheKey
  subscribers := e.subscribers
  settled := e.settled
  aborted := e.lo.client
  orphan := e.creatorAborted

def Process.board (s : Process) : Board JsString where
  flights := s.entries.map InFlightSearch.flight
  map := s.inFlightSearches
  callers := s.calls.map Call.caller

/-! ## A search runs in its own name -/

/-- What a step of a search leaves alone, what it only adds to, and that
whatever it reads satisfies `W`. -/
structure Forward (W : JsString × Json → Prop) (v v' : View) : Prop where
  client : v'.lo.client = v.lo.client
  shutdown : v'.sh.shutdown = v.sh.shutdown
  provider : ∀ r, v.lo.provider = some r → v'.lo.provider = some r
  writes : ∀ w ∈ v.lo.writes, w ∈ v'.lo.writes
  reads : ∀ r ∈ v'.lo.reads, r ∈ v.lo.reads ∨ W r

/-- What the store returns satisfies `W`. -/
def Answers (W : JsString × Json → Prop) (answer : (c : Command) → Option (Reply c)) : Prop :=
  ∀ key value, answer (.storeGet key) = some (.ok (some value)) → W (key, value)

variable {settings : Settings} {platform : Platform} {leases honest : Bool}
  {W : JsString × Json → Prop}

theorem Forward.refl (v : View) : Forward W v v :=
  ⟨rfl, rfl, fun _ => id, fun _ => id, fun _ => .inl⟩

theorem Forward.trans {v v' v'' : View} (h : Forward W v v') (h' : Forward W v' v'') :
    Forward W v v'' where
  client := h'.client.trans h.client
  shutdown := h'.shutdown.trans h.shutdown
  provider r := h'.provider r ∘ h.provider r
  writes w := h'.writes w ∘ h.writes w
  reads r hr := (h'.reads r hr).elim (h.reads r) .inr

theorem forward_now (c : Command) (v : View) (r : Reply c) (v' : View)
    (h : now settings c v = some (r, v')) : Forward W v v' := by
  cases c <;> simp only [now, Option.some.injEq, Prod.mk.injEq, reduceCtorEq] at h <;>
    obtain ⟨-, rfl⟩ := h <;>
    refine ⟨rfl, rfl, fun r hr => ?_, fun _ => id, fun _ => .inl⟩
  case providerSettled => rw [hr]; rfl
  all_goals exact hr

theorem forward_issue (c : Command) (v : View) : Forward W v (issue c v) := by
  cases c
  case storeSet =>
    exact ⟨rfl, rfl, fun _ => id, fun _ => List.mem_cons_of_mem _, fun _ => .inl⟩
  all_goals exact .refl _

theorem forward_reply {answer : (c : Command) → Option (Reply c)} (hW : Answers W answer)
    (c : Command) (r : Reply c) (v v' : View) (ha : answer c = some r)
    (h : reply honest c r v = some v') : Forward W v v' := by
  unfold reply at h
  split at h
  · cases h
    refine ⟨rfl, rfl, fun _ => id, fun _ => id, fun r hr => ?_⟩
    rcases List.mem_cons.mp hr with rfl | hr
    · exact .inr (hW _ _ ha)
    · exact .inl hr
  · split at h
    · split at h <;> cases h
      exact .refl _
    · cases h
  · split at h <;> cases h
    exact .refl _
  · cases h; exact .refl _

variable (W) in
theorem forward_advance (settings : Settings) (honest : Bool) {α : Type}
    (p : Prog Command Reply α) (v : View) :
    Forward W v ((jobHost settings honest).advance p v).2 :=
  Host.advance_frame Forward.refl Forward.trans forward_now forward_issue p v

theorem forward_resume {α : Type} {answer : (c : Command) → Option (Reply c)}
    {p p' : Prog Command Reply α} {v v' : View} (hW : Answers W answer)
    (h : (jobHost settings honest).resume answer p v = some (p', v')) : Forward W v v' :=
  Host.resume_frame Forward.refl Forward.trans forward_now forward_issue (forward_reply hW) h

/-- Whatever the store returns. -/
theorem forward_resume_any {α : Type} {answer : (c : Command) → Option (Reply c)}
    {p p' : Prog Command Reply α} {v v' : View}
    (h : (jobHost settings honest).resume answer p v = some (p', v')) :
    Forward (fun _ => True) v v' :=
  forward_resume (fun _ _ _ => trivial) h

/-! ## What is known of a call -/

/-- The flags of a call's promise agree with its outcome. -/
structure Call.Ok (c : Call) : Prop where
  lookup : c.stage ≠ .looking → ∃ r, c.lookup = .pure r
  released : ∀ w, c.wait = some w → w.released = c.outcome.isSome
  listening : ∀ w, c.wait = some w → w.listening = (c.hasSignal && !w.released)
  ended : ∀ w, c.wait = some w → c.outcome.isSome = (w.delivered || c.lo.client)

structure InFlightSearch.Ok (e : InFlightSearch) : Prop where
  key : e.cacheKey = searchCacheKey e.options
  settled : e.settled = true → ∃ r, e.promise = .pure r

structure Process.Ok (s : Process) : Prop where
  board : Inv s.board
  calls : ∀ c ∈ s.calls, c.Ok
  entries : ∀ e ∈ s.entries, e.Ok

variable {s s' : Process} {c c' : Call} {e e' : InFlightSearch} {i n : Nat}

@[simp] theorem flight_unsubscribe (e : InFlightSearch) :
    e.unsubscribe.flight = e.flight.unsubscribe := by
  unfold InFlightSearch.unsubscribe InFlightSearch.flight Flight.unsubscribe
  cases hc : (!e.settled && e.subscribers - 1 == 0)
  · simp [hc]
  · simp [hc]

/-- A call that does not wait. -/
theorem Call.Ok.alone (hw : c.wait = none)
    (hl : c.outcome.isSome = true → ∃ r, c.lookup = .pure r) : c.Ok where
  lookup hs := hl (by
    unfold Call.stage at hs
    rw [hw] at hs
    cases ho : c.outcome with
    | none => exact absurd (by rw [ho]) hs
    | some r => rfl)
  released _ h := nomatch hw.symm.trans h
  listening _ h := nomatch hw.symm.trans h
  ended _ h := nomatch hw.symm.trans h

theorem Call.Ok.waiting {w : Wait} (hw : c.wait = some w) (hl : ∃ r, c.lookup = .pure r)
    (hr : w.released = c.outcome.isSome) (hlis : w.listening = (c.hasSignal && !w.released))
    (he : c.outcome.isSome = (w.delivered || c.lo.client)) : c.Ok where
  lookup _ := hl
  released _ h := by cases hw.symm.trans h; exact hr
  listening _ h := by cases hw.symm.trans h; exact hlis
  ended _ h := by cases hw.symm.trans h; exact he

theorem Call.Ok.settle {r : Except JsError ArticleSearchResult} (hw : c.wait = none)
    (hl : ∃ r, c.lookup = .pure r) : (c.settle r).Ok :=
  .alone hw fun _ => hl

theorem board_put : ((s.setCall i c).setEntry n e).board = s.board.put i c.caller n e.flight := by
  simp [Process.board, Board.put, Process.setCall, Process.setEntry, List.map_set]

theorem board_setCall : (s.setCall i c).board = s.board.setCaller i c.caller := by
  simp [Process.board, Board.setCaller, Process.setCall, List.map_set]

theorem board_callers (hi : s.calls[i]? = some c) : s.board.callers[i]? = some c.caller := by
  simp [Process.board, hi]

theorem board_flights (hn : s.entries[n]? = some e) : s.board.flights[n]? = some e.flight := by
  simp [Process.board, hn]

/-! ## Every event is a step of the accounts or none -/

theorem map_set_same {α β : Type _} {f : α → β} {l : List α} {x y : α} {m : Nat}
    (hx : l[m]? = some x) (hf : f y = f x) : (l.set m y).map f = l.map f := by
  apply List.ext_getElem?
  intro k
  rw [List.getElem?_map, List.getElem?_set, List.getElem?_map]
  split
  · rename_i hk
    subst hk
    obtain ⟨hlt, rfl⟩ := List.getElem?_eq_some_iff.mp hx
    simp [hlt, hf]
  · rfl

theorem mem_set {α : Type _} {P : α → Prop} {l : List α} {x : α} {m : Nat}
    (hl : ∀ y ∈ l, P y) (hx : P x) : ∀ y ∈ l.set m x, P y := by
  intro y hy
  rcases List.mem_or_eq_of_mem_set hy with hy | rfl
  · exact hl y hy
  · exact hx

theorem mem_append {α : Type _} {P : α → Prop} {l : List α} {x : α}
    (hl : ∀ y ∈ l, P y) (hx : P x) : ∀ y ∈ l ++ [x], P y := by
  intro y hy
  rcases List.mem_append.mp hy with hy | hy
  · exact hl y hy
  · rw [List.mem_singleton.mp hy]
    exact hx

/-- One event in the accounts. -/
def Moves (s s' : Process) : Prop := s'.board = s.board ∨ Step s.board s'.board

/-- A step of the accounts after which the flags still agree. -/
structure Advances (s s' : Process) : Prop where
  moves : Moves s s'
  calls : ∀ c ∈ s'.calls, c.Ok
  entries : ∀ e ∈ s'.entries, e.Ok

theorem Advances.ok (h : s.Ok) (ha : Advances s s') : s'.Ok where
  board := by
    rcases ha.moves with hb | hb
    · rw [hb]; exact h.board
    · exact h.board.step hb
  calls := ha.calls
  entries := ha.entries

/-- A call ends without a wait. -/
theorem advances_settle {r : Except JsError ArticleSearchResult} (h : s.Ok)
    (hi : s.board.callers[i]? = some ⟨c.lo.client, .looking⟩) (hw : c.wait = none)
    (ho : c.outcome = none) (hl : ∃ r, c.lookup = .pure r) :
    Advances s (s.setCall i (c.settle r)) where
  moves := by
    refine .inr ?_
    have : (c.settle r).caller = ⟨c.lo.client, .ended⟩ := by
      simp [Call.caller, Call.stage, Call.settle, hw, ho]
    rw [board_setCall, this]
    exact .finish hi
  calls := mem_set h.calls (.settle hw hl)
  entries := h.entries

theorem waitForInFlightSearch_gone (hc : c.lo.client = true) (existing : Bool) :
    waitForInFlightSearch c n existing e = (c.settle (.error .requestAborted), e) := by
  rw [waitForInFlightSearch, if_pos hc]

/-- The caller who waits from now on. -/
theorem waitForInFlightSearch_present (hc : c.lo.client = false) (ho : c.outcome = none)
    (hl : ∃ r, c.lookup = .pure r) (existing : Bool) :
    ∃ c' e', waitForInFlightSearch c n existing e = (c', e') ∧ c'.Ok ∧
      c'.caller = ⟨false, .waiting n e.lo.client⟩ ∧
      e' = { e with subscribers := e.subscribers + 1 } := by
  refine ⟨_, _, by rw [waitForInFlightSearch, if_neg (by simp [hc])], ?_, ?_, rfl⟩
  · exact .waiting rfl hl (by simp [ho]) (by simp) (by simp [ho, hc])
  · simp [Call.caller, Call.stage, hc, ho]

/-- The entry that is created, before its creator waits for it. -/
theorem createInFlightSearch_eq (settings : Settings) (platform : Platform)
    (leases honest : Bool) (s : Process) (c : Call) :
    ∃ e sh, createInFlightSearch settings platform leases honest s c (searchCacheKey c.options) =
        ({ s with
            sh := sh
            entries := s.entries ++ [e]
            inFlightSearches := Function.update s.inFlightSearches (searchCacheKey c.options)
              (some s.entries.length) }, e) ∧
      e.Ok ∧ e.flight = ⟨searchCacheKey c.options, 0, false, false, c.lo.client⟩ := by
  have hclient := (forward_advance (fun _ => True) settings honest
    (fetchArticlesFromUpstream settings platform leases c.options (searchCacheKey c.options)).run
    ⟨s.sh, .start s.entries.length c.lo.randoms c.lo.uuid⟩).client
  refine ⟨_, _, rfl, ⟨rfl, nofun⟩, ?_⟩
  simp only [InFlightSearch.flight, hclient]
  rfl

theorem board_open {sh : Shared} {inFlight : JsString → Option Nat}
    (hmap : inFlight = Function.update s.inFlightSearches e'.cacheKey (some s.entries.length)) :
    (Process.setEntry (Process.setCall { s with
      sh := sh, entries := s.entries ++ [e], inFlightSearches := inFlight } i c)
        s.entries.length e').board = s.board.open i c.caller e'.flight := by
  simp [Process.board, Board.open, Process.setCall, Process.setEntry, List.map_set, hmap,
    InFlightSearch.flight]

theorem advances_join (h : s.Ok) (hi : s.board.callers[i]? = some ⟨c.lo.client, .looking⟩)
    (hw : c.wait = none) (ho : c.outcome = none) (hl : ∃ r, c.lookup = .pure r) :
    Advances s (joinInFlightSearch settings platform leases honest s i c) := by
  unfold joinInFlightSearch
  cases hmap : s.inFlightSearches (searchCacheKey c.options) with
  | some n =>
    obtain ⟨f, hf, hkey, -⟩ := h.board.live _ n hmap
    obtain ⟨e, hn, rfl⟩ := Option.map_eq_some_iff.mp (List.getElem?_map.symm.trans hf)
    simp only [hmap, Option.bind_some, hn, Option.map_some]
    cases hc : c.lo.client with
    | true =>
      simp only [waitForInFlightSearch_gone hc]
      have hset : (s.setCall i (c.settle (.error .requestAborted))).setEntry n e =
          s.setCall i (c.settle (.error .requestAborted)) := by
        obtain ⟨hlt, rfl⟩ := List.getElem?_eq_some_iff.mp hn
        simp [Process.setEntry, Process.setCall]
      rw [hset]
      exact advances_settle h hi hw ho hl
    | false =>
      obtain ⟨c', e', hwait, hok, hcaller, rfl⟩ :=
        waitForInFlightSearch_present (n := n) (e := e) hc ho hl true
      simp only [hwait]
      refine ⟨.inr ?_, mem_set h.calls hok, mem_set h.entries ?_⟩
      · rw [board_put, hcaller]
        rw [hc] at hi
        have hmap' : s.board.map e.flight.key = some n := by rw [hkey]; exact hmap
        exact .join hi (board_flights hn) hmap'
      · have := h.entries e (List.mem_of_getElem? hn)
        exact ⟨this.key, this.settled⟩
  | none =>
    obtain ⟨e, sh, hcreate, hok, hflight⟩ :=
      createInFlightSearch_eq settings platform leases honest s c
    have hkey : e.cacheKey = searchCacheKey c.options := congrArg Flight.key hflight
    simp only [hmap, Option.bind_none, hcreate]
    cases hc : c.lo.client with
    | true =>
      simp only [waitForInFlightSearch_gone hc]
      refine ⟨.inr ?_, mem_set h.calls (.settle hw hl), mem_set (mem_append h.entries hok) hok⟩
      have hcaller : (c.settle (.error .requestAborted)).caller = ⟨true, .ended⟩ := by
        simp [Call.caller, Call.stage, Call.settle, hw, ho, hc]
      rw [board_open (by rw [hkey]), hcaller, hflight, hc]
      rw [hc] at hi
      exact .abandon hi hmap
    | false =>
      obtain ⟨c', e', hwait, hok', hcaller, rfl⟩ :=
        waitForInFlightSearch_present (n := s.entries.length) (e := e) hc ho hl false
      simp only [hwait]
      have hok'' : InFlightSearch.Ok { e with subscribers := e.subscribers + 1 } :=
        ⟨hok.key, hok.settled⟩
      refine ⟨.inr ?_, mem_set h.calls hok', mem_set (mem_append h.entries hok) hok''⟩
      have hflight' : InFlightSearch.flight { e with subscribers := e.subscribers + 1 } =
          ⟨searchCacheKey c.options, 1, false, false, false⟩ := by
        have : e.flight = ⟨searchCacheKey c.options, 0, false, false, false⟩ := hc ▸ hflight
        rw [show InFlightSearch.flight { e with subscribers := e.subscribers + 1 } =
          { e.flight with subscribers := e.flight.subscribers + 1 } from rfl, this]
        rfl
      have hclient : e.lo.client = false := congrArg Flight.aborted hflight
      rw [board_open (by rw [hkey]), hcaller, hflight', hclient]
      rw [hc] at hi
      have := Step.create hi hmap
      simpa [Process.board] using this

theorem board_setCall_same (hi : s.board.callers[i]? = some c.caller) :
    (s.setCall i c).board = s.board := by
  obtain ⟨hlt, heq⟩ := List.getElem?_eq_some_iff.mp hi
  rw [board_setCall, Board.setCaller, ← heq, List.set_getElem_self]

theorem board_setEntry_same (hn : s.entries[n]? = some e) (hf : e'.flight = e.flight) :
    (s.setEntry n e').board = s.board := by
  unfold Process.board Process.setEntry
  rw [map_set_same hn hf]

theorem advances_continue (h : s.Ok) (hi : s.board.callers[i]? = some ⟨c.lo.client, .looking⟩)
    (hw : c.wait = none) (ho : c.outcome = none) :
    Advances s (continueCall settings platform leases honest s i c) := by
  have hcaller : c.caller = ⟨c.lo.client, .looking⟩ := by simp [Call.caller, Call.stage, hw, ho]
  unfold continueCall
  split
  · rename_i hl
    exact advances_settle h hi hw ho ⟨_, hl⟩
  · rename_i hl
    exact advances_settle h hi hw ho ⟨_, hl⟩
  · rename_i hl
    exact advances_join h hi hw ho ⟨_, hl⟩
  · refine ⟨.inl (board_setCall_same (hcaller ▸ hi)), mem_set h.calls ?_, h.entries⟩
    exact .alone hw (by simp [ho])

/-- A call whose lookup has not ended is still looking. -/
theorem Call.Ok.looking (h : c.Ok) (hl : ∀ r, c.lookup ≠ .pure r) :
    c.wait = none ∧ c.outcome = none := by
  have hs : c.stage = .looking := by
    by_contra hs
    obtain ⟨r, hr⟩ := h.lookup hs
    exact hl r hr
  unfold Call.stage at hs
  split at hs <;> simp_all

theorem advances_callReply {answer : (c : Command) → Option (Reply c)}
    {lookup : Prog Command Reply (Except JsError (Option ArticleSearchResult))} {v : View}
    (h : s.Ok) (hi : s.calls[i]? = some c)
    (hr : (jobHost settings honest).resume answer c.lookup ⟨s.sh, c.lo⟩ = some (lookup, v)) :
    Advances s (continueCall settings platform leases honest { s with sh := v.sh } i
      { c with lo := v.lo, lookup := lookup }) := by
  have hok := h.calls c (List.mem_of_getElem? hi)
  obtain ⟨hw, ho⟩ := hok.looking fun r hl => by rw [hl] at hr; cases hr
  have hcaller : s.board.callers[i]? = some ⟨v.lo.client, .looking⟩ := by
    rw [board_callers hi, (forward_resume_any hr).client]
    simp [Call.caller, Call.stage, hw, ho]
  have hs : Process.Ok { s with sh := v.sh } := ⟨h.board, h.calls, h.entries⟩
  have hadv : Advances { s with sh := v.sh } (continueCall settings platform leases honest
      { s with sh := v.sh } i { c with lo := v.lo, lookup := lookup }) :=
    advances_continue hs hcaller hw ho
  exact ⟨hadv.moves, hadv.calls, hadv.entries⟩

theorem advances_arrive (h : s.Ok) (hok : c.Ok) (hc : c.stage = .looking ∨ c.stage = .ended) :
    Advances s { s with calls := s.calls ++ [c] } where
  moves := by
    refine .inr ?_
    have := Step.arrive (b := s.board) c.caller hc
    simpa [Process.board] using this
  calls := mem_append h.calls hok
  entries := h.entries

/-- A new call either waits for the cache, or throws because its signal is aborted. -/
theorem searchArticles_cases (settings : Settings) (platform : Platform) (leases honest : Bool)
    (s : Process) (options : ArticleSearchOptions) (signal : Option Bool) (randoms : Nat → Rat)
    (uuid : JsString) :
    ∃ c, searchArticles settings platform leases honest s options signal randoms uuid =
        { s with calls := s.calls ++ [c] } ∧
      c.options = options ∧ c.wait = none ∧
      c.lo = { Local.start s.calls.length randoms uuid with client := signal.getD false } ∧
      (c.lo.client = true ∧ c.lookup = .pure (.error .requestAborted) ∧
          c.outcome = some (.error .requestAborted) ∨
        c.lo.client = false ∧ c.lookup = (readCachedArticles (searchCacheKey options)).run ∧
          c.outcome = none) := by
  let start (lookup : Prog Command Reply (Except JsError (Option ArticleSearchResult))) : Call := {
    options := options
    hasSignal := signal.isSome
    lo := { Local.start s.calls.length randoms uuid with client := signal.getD false }
    lookup := lookup
    wait := none
    outcome := none }
  have hset : ∀ c c' : Call, Process.setCall { s with calls := s.calls ++ [c] } s.calls.length c' =
      { s with calls := s.calls ++ [c'] } := by
    intro c c'
    simp [Process.setCall]
  cases hc : signal.getD false with
  | true =>
    refine ⟨(start (.pure (.error .requestAborted))).settle (.error .requestAborted), ?_,
      rfl, rfl, by rw [← hc]; rfl, .inl ⟨hc, rfl, rfl⟩⟩
    rw [← hset (start (.pure (.error .requestAborted)))]
    simp only [searchArticles, startCall, start, hc]
    rfl
  | false =>
    refine ⟨start (readCachedArticles (searchCacheKey options)).run, ?_,
      rfl, rfl, by rw [← hc], .inr ⟨hc, rfl, rfl⟩⟩
    rw [← hset (start (readCachedArticles (searchCacheKey options)).run)]
    simp only [searchArticles, startCall, start, hc]
    rfl

theorem advances_call (h : s.Ok) (options : ArticleSearchOptions) (signal : Option Bool)
    (randoms : Nat → Rat) (uuid : JsString) :
    Advances s (searchArticles settings platform leases honest s options signal randoms uuid) := by
  obtain ⟨c, heq, -, hw, -, hcases⟩ :=
    searchArticles_cases settings platform leases honest s options signal randoms uuid
  rw [heq]
  rcases hcases with ⟨-, hl, ho⟩ | ⟨-, -, ho⟩
  · exact advances_arrive h (.alone hw fun _ => ⟨_, hl⟩) (.inr (by simp [Call.stage, hw, ho]))
  · exact advances_arrive h (.alone hw (by simp [ho])) (.inl (by simp [Call.stage, hw, ho]))

theorem advances_setEntry (h : s.Ok) (hn : s.entries[n]? = some e) (hf : e'.flight = e.flight)
    (hok : e'.Ok) : Advances s (s.setEntry n e') :=
  ⟨.inl (board_setEntry_same hn hf), h.calls, mem_set h.entries hok⟩

theorem advances_jobReply {answer : (c : Command) → Option (Reply c)}
    {promise : Prog Command Reply (Except JsError ArticleSearchResult)} {v : View}
    (h : s.Ok) (hn : s.entries[n]? = some e)
    (hr : (jobHost settings honest).resume answer e.promise ⟨s.sh, e.lo⟩ = some (promise, v)) :
    Advances s ({ s with sh := v.sh }.setEntry n { e with lo := v.lo, promise := promise }) := by
  have hok := h.entries e (List.mem_of_getElem? hn)
  have hunsettled : e.settled = true → False := fun hs => by
    obtain ⟨r, hp⟩ := hok.settled hs
    rw [hp] at hr
    cases hr
  have hflight : InFlightSearch.flight { e with lo := v.lo, promise := promise } = e.flight := by
    simp [InFlightSearch.flight, (forward_resume_any hr).client]
  have := advances_setEntry h hn hflight ⟨hok.key, fun hs => (hunsettled hs).elim⟩
  exact ⟨this.moves, this.calls, this.entries⟩

/-- An unsettled search is in the map, and leaves it when it settles. -/
theorem markInFlightSettled_eq (h : s.Ok) (hn : s.entries[n]? = some e) (hs : e.settled = false) :
    markInFlightSettled s n e = { s with
      entries := s.entries.set n { e with settled := true }
      inFlightSearches := Function.update s.inFlightSearches e.cacheKey none } := by
  have hmap : s.inFlightSearches e.cacheKey = some n :=
    h.board.mapped n e.flight (board_flights hn) hs
  exact if_pos hmap

theorem advances_markSettled {r : Except JsError ArticleSearchResult} (h : s.Ok)
    (hn : s.entries[n]? = some e) (hp : e.promise = .pure r) (hs : e.settled = false) :
    Advances s (markInFlightSettled s n e) := by
  have hok := h.entries e (List.mem_of_getElem? hn)
  have hmap : s.board.map e.flight.key = some n := h.board.mapped n e.flight (board_flights hn) hs
  rw [markInFlightSettled_eq h hn hs]
  refine ⟨.inr ?_, h.calls, mem_set h.entries ⟨hok.key, fun _ => ⟨r, hp⟩⟩⟩
  have := Step.settle (board_flights hn) hs
  rw [Board.close, if_pos hmap] at this
  show Step s.board ⟨(s.entries.set n _).map _, _, _⟩
  rw [List.map_set]
  exact this

theorem unsubscribe_ok (h : e.Ok) : e.unsubscribe.Ok := by
  unfold InFlightSearch.unsubscribe
  simp only
  split <;> exact ⟨h.key, h.settled⟩

/-- A wait that was released stays as it is. -/
theorem release_released {w : Wait} (h : w.released = true) : release w e = (w, e) := by
  rw [release, if_pos h]

theorem release_waiting {w : Wait} (h : w.released = false) :
    release w e = ({ w with released := true, listening := false }, e.unsubscribe) := by
  rw [release, if_neg (by simp [h])]

/-- The promise of a search that has settled calls back. -/
theorem advances_deliver {w : Wait} {r : Except JsError ArticleSearchResult} (h : s.Ok)
    (hi : s.calls[i]? = some c) (hw : c.wait = some w) (hn : s.entries[w.entry]? = some e)
    (hs : e.settled = true) (hd : deliver c w e r = (c', e')) :
    Advances s ((s.setCall i c').setEntry w.entry e') := by
  have hok := h.calls c (List.mem_of_getElem? hi)
  have hoke := h.entries e (List.mem_of_getElem? hn)
  have hlookup : ∃ r, c.lookup = .pure r := hok.lookup (by
    unfold Call.stage
    rw [hw]
    cases c.outcome <;> nofun)
  have hrel := hok.released w hw
  unfold deliver at hd
  cases ho : c.outcome with
  | some r' =>
    rw [ho] at hrel
    rw [release_released hrel] at hd
    obtain ⟨rfl, rfl⟩ := Prod.mk.inj hd
    refine ⟨.inl ?_, mem_set h.calls (.waiting rfl hlookup ?_ (hok.listening w hw) ?_),
      mem_set h.entries hoke⟩
    · have hcaller : Call.caller ({ c with wait := some { w with delivered := true } }.settle
          (r.map (callResult w.existing))) = c.caller := by
        simp [Call.caller, Call.stage, Call.settle, hw, ho]
      rw [board_setEntry_same (s := s.setCall i _) (e := e) hn rfl, board_setCall_same]
      rw [board_callers hi, hcaller]
    · simpa [Call.settle, ho] using hrel
    · simp [Call.settle, ho]
  | none =>
    rw [ho] at hrel
    rw [release_waiting hrel] at hd
    obtain ⟨rfl, rfl⟩ := Prod.mk.inj hd
    refine ⟨.inr ?_, mem_set h.calls (.waiting rfl hlookup ?_ ?_ ?_),
      mem_set h.entries (unsubscribe_ok hoke)⟩
    · have hold : s.board.callers[i]? = some ⟨c.lo.client, .waiting w.entry w.foundAborted⟩ := by
        rw [board_callers hi]
        simp [Call.caller, Call.stage, hw, ho]
      rw [board_put, flight_unsubscribe]
      have := Step.serve hold (board_flights hn) hs
      simpa [Call.caller, Call.stage, Call.settle, ho] using this
    · simp [Call.settle, ho]
    · simp [Call.settle]
    · simp [Call.settle, ho]

theorem disconnect_deaf (hw : ∀ w, c.wait = some w → w.listening = false) :
    disconnect s i c = s.setCall i { c with lo.client := true } := by
  obtain ⟨options, hasSignal, lo, lookup, wait, outcome⟩ := c
  cases wait with
  | none => rfl
  | some w =>
    unfold disconnect
    simp only [hw w rfl]
    rfl

theorem disconnect_listening {w : Wait} (hw : c.wait = some w) (hl : w.listening = true)
    (hu : w.released = false) (hn : s.entries[w.entry]? = some e) :
    disconnect s i c = (s.setCall i { c with
      lo.client := true
      wait := some { w with released := true, listening := false }
      outcome := c.outcome.or (some (.error .requestAborted)) }).setEntry w.entry
        e.unsubscribe := by
  obtain ⟨options, hasSignal, lo, lookup, wait, outcome⟩ := c
  cases hw
  unfold disconnect
  simp only [hl, if_true, hn, onAbort, release_waiting hu]
  rfl

/-- The signal of a call aborts. -/
theorem advances_disconnect (h : s.Ok) (hi : s.calls[i]? = some c) (hc : c.hasSignal = true) :
    Advances s (disconnect s i c) := by
  have hok := h.calls c (List.mem_of_getElem? hi)
  by_cases hwait : ∃ w, c.wait = some w ∧ w.listening = true
  · obtain ⟨w, hw, hl⟩ := hwait
    have hunreleased : w.released = false := by
      have := hok.listening w hw
      rw [hc, hl] at this
      simpa using this.symm
    have ho : c.outcome = none := by
      have := hok.released w hw
      rw [hunreleased] at this
      simpa using this.symm
    have hold : s.board.callers[i]? = some ⟨c.lo.client, .waiting w.entry w.foundAborted⟩ := by
      rw [board_callers hi]
      simp [Call.caller, Call.stage, hw, ho]
    obtain ⟨-, f, hf, -⟩ := h.board.callers _ (List.mem_of_getElem? hold)
    obtain ⟨e, hn, rfl⟩ := Option.map_eq_some_iff.mp (List.getElem?_map.symm.trans hf)
    have hlookup : ∃ r, c.lookup = .pure r := hok.lookup (by simp [Call.stage, hw, ho])
    rw [disconnect_listening hw hl hunreleased hn]
    refine ⟨.inr ?_, mem_set h.calls (.waiting rfl hlookup ?_ ?_ ?_),
      mem_set h.entries (unsubscribe_ok (h.entries e (List.mem_of_getElem? hn)))⟩
    · rw [board_put, flight_unsubscribe]
      have := Step.leave hold (board_flights hn)
      simpa [Call.caller, Call.stage, ho] using this
    · simp [ho]
    · simp
    · simp [ho]
  · have hdeaf : ∀ w, c.wait = some w → w.listening = false := fun w hw =>
      Bool.eq_false_iff.mpr fun hl => hwait ⟨w, hw, hl⟩
    -- a call with a signal listens as long as it waits
    have hended : ∀ w, c.wait = some w → c.outcome.isSome = true := fun w hw => by
      have hlis := hok.listening w hw
      rw [hc, hdeaf w hw, hok.released w hw] at hlis
      simpa using hlis
    rw [disconnect_deaf hdeaf]
    refine ⟨.inr ?_, mem_set h.calls ⟨hok.lookup, hok.released, hok.listening, fun w hw => ?_⟩,
      h.entries⟩
    · rw [board_setCall]
      refine .hangUp (board_callers hi) fun n late hs => ?_
      change c.stage = _ at hs
      unfold Call.stage at hs
      split at hs <;> cases hs
      rename_i w hw ho
      have := hended w hw
      rw [ho] at this
      cases this
    · exact (hended w hw).trans (Bool.or_true _).symm

theorem fireDeadline_client {now : Nat} {lo lo' : Local} (h : fireDeadline now lo = some lo') :
    lo'.client = lo.client := by
  unfold fireDeadline at h
  split at h
  · cases h
  · split at h <;> cases h
    rfl

theorem renew_client {result : Except JsError Bool} {lo lo' : Local}
    (h : renew result lo = some lo') : lo'.client = lo.client := by
  obtain ⟨heartbeat, -, rfl⟩ := Option.map_eq_some_iff.mp h
  split <;> rfl

/-- The process refines the shared flights: every event is one step or none. -/
theorem step_advances {ev : Event} (h : s.Ok)
    (hs : step settings platform leases honest s ev = some s') : Advances s s' := by
  cases ev with
  | call options signal randoms uuid =>
    cases hs
    exact advances_call h options signal randoms uuid
  | callReply i answer =>
    obtain ⟨c, lookup, v, hi, hr, rfl⟩ := step_callReply hs
    exact advances_callReply h hi hr
  | jobReply n answer =>
    obtain ⟨e, promise, v, hn, hr, rfl⟩ := step_jobReply hs
    exact advances_jobReply h hn hr
  | markSettled n =>
    obtain ⟨e, r, hn, hp, hsettled, rfl⟩ := step_markSettled hs
    exact advances_markSettled h hn hp hsettled
  | deliver i =>
    obtain ⟨c, w, e, r, hi, hw, hn, -, hsettled, -, rfl⟩ := step_deliver hs
    exact advances_deliver h hi hw hn hsettled rfl
  | disconnect i =>
    obtain ⟨c, hi, hsignal, rfl⟩ := step_disconnect hs
    exact advances_disconnect h hi hsignal
  | shutdown =>
    cases hs
    exact ⟨.inl rfl, h.calls, h.entries⟩
  | deadline n =>
    obtain ⟨e, lo, hn, hlo, rfl⟩ := step_deadline hs
    have hoke := h.entries e (List.mem_of_getElem? hn)
    refine advances_setEntry h hn ?_ ⟨hoke.key, hoke.settled⟩
    simp [InFlightSearch.flight, fireDeadline_client hlo]
  | renewed n result =>
    obtain ⟨e, lo, hn, hlo, rfl⟩ := step_renewed hs
    have hoke := h.entries e (List.mem_of_getElem? hn)
    refine advances_setEntry h hn ?_ ⟨hoke.key, hoke.settled⟩
    simp [InFlightSearch.flight, renew_client hlo]
  | elapse ms =>
    cases hs
    exact ⟨.inl rfl, h.calls, h.entries⟩

theorem Process.Ok.initial : Process.Ok .initial where
  board := Inv.initial
  calls _ h := nomatch h
  entries _ h := nomatch h

theorem ok_of_reachable (h : Reachable (step settings platform leases honest) .initial s) : s.Ok :=
  h.invariant (P := Process.Ok) .initial fun _ _ _ hs he => (step_advances hs he).ok hs

end NewsApi.Services
