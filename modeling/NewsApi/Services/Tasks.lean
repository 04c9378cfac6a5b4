import NewsApi.Services.Evolution

/-! # What every task of a process keeps

The lookup of a call and the work of a search are tasks: they start, and every
answer takes them on. What they keep, `L` and `E`, holds of them in every run; what
a call ends with satisfies `O` then. -/
namespace NewsApi.Services
open NewsApi.Async NewsApi.Text NewsApi.Types NewsApi.Config NewsApi.Errors
open NewsApi.Runtime NewsApi.Collections

/-- A call whose lookup has ended has an outcome or waits. -/
def Call.Turned (c : Call) : Prop :=
  ∀ r, c.lookup = .pure r → c.outcome.isSome = true ∨ c.wait.isSome = true

abbrev Lookup : Type 1 := Prog Command Reply (Except JsError (Option ArticleSearchResult))

abbrev Work : Type 1 := Prog Command Reply (Except JsError ArticleSearchResult)

/-- The answers of an event are `good`. -/
def Event.AnsweredBy (good : ((c : Command) → Option (Reply c)) → Prop) : Event → Prop
  | .callReply _ answer => good answer
  | .jobReply _ answer => good answer
  | _ => True

/-- How tasks start, go on and end. -/
structure TaskRules (settings : Settings) (platform : Platform) (leases honest : Bool)
    (good : ((c : Command) → Option (Reply c)) → Prop) (L : Lookup → Prop) (E : Work → Prop)
    (O : Except JsError ArticleSearchResult → Prop) : Prop where
  gone : L (.pure (.error .requestAborted))
  reads : ∀ cacheKey, L (readCachedArticles cacheKey).run
  looks : ∀ answer p v p' v', good answer → L p →
    (jobHost settings honest).resume answer p v = some (p', v') → L p'
  starts : ∀ options v, E ((jobHost settings honest).advance
    (fetchArticlesFromUpstream settings platform leases options (searchCacheKey options)).run v).1
  works : ∀ answer p v p' v', good answer → E p →
    (jobHost settings honest).resume answer p v = some (p', v') → E p'
  aborted : O (.error .requestAborted)
  failed : ∀ err, L (.pure (.error err)) → O (.error err)
  found : ∀ cached, L (.pure (.ok (some cached))) → O (.ok cached)
  told : ∀ r existing, E (.pure r) → O (r.map (callResult existing))

structure CallTask (L : Lookup → Prop) (O : Except JsError ArticleSearchResult → Prop) (c : Call) :
    Prop where
  lookup : L c.lookup
  turned : c.Turned
  outcome : ∀ r, c.outcome = some r → O r

structure Tasks (L : Lookup → Prop) (E : Work → Prop)
    (O : Except JsError ArticleSearchResult → Prop) (s : Process) : Prop where
  calls : ∀ c ∈ s.calls, CallTask L O c
  entries : ∀ e ∈ s.entries, E e.promise

variable {settings : Settings} {platform : Platform} {leases honest : Bool}
  {good : ((c : Command) → Option (Reply c)) → Prop} {L : Lookup → Prop} {E : Work → Prop}
  {O : Except JsError ArticleSearchResult → Prop}
  {s s' : Process} {c c' : Call} {e : InFlightSearch} {i n : Nat}

theorem CallTask.settle {r : Except JsError ArticleSearchResult} (hl : L c.lookup)
    (ho : ∀ r, c.outcome = some r → O r) (hr : O r) : CallTask L O (c.settle r) where
  lookup := hl
  turned _ _ := by
    left
    show (c.outcome.or _).isSome = true
    cases c.outcome <;> rfl
  outcome r' hr' := by
    have hor : c.outcome.or (some r) = some r' := hr'
    cases hout : c.outcome with
    | some first => exact ho r' (by rw [hout] at hor ⊢; exact hor)
    | none => rw [hout] at hor; cases hor; exact hr

theorem waitForInFlightSearch_task (hl : L c.lookup) (ho : ∀ r, c.outcome = some r → O r)
    (hgone : O (.error .requestAborted)) (n : Nat) (existing : Bool) (e : InFlightSearch) :
    CallTask L O (waitForInFlightSearch c n existing e).1 ∧
      (waitForInFlightSearch c n existing e).2.promise = e.promise := by
  unfold waitForInFlightSearch
  split
  · exact ⟨.settle hl ho hgone, rfl⟩
  · exact ⟨⟨hl, fun _ _ => .inr rfl, ho⟩, rfl⟩

section
variable (hrules : TaskRules settings platform leases honest good L E O)
include hrules

theorem tasks_join (h : Tasks L E O s) (hl : L c.lookup) (ho : ∀ r, c.outcome = some r → O r) :
    Tasks L E O (joinInFlightSearch settings platform leases honest s i c) := by
  have hwait := waitForInFlightSearch_task hl ho hrules.aborted
  have hentry : ∀ n existing e, E e.promise →
      E (waitForInFlightSearch c n existing e).2.promise := by
    intro n existing e he
    rwa [(hwait n existing e).2]
  unfold joinInFlightSearch
  dsimp only
  split
  · rename_i n e hjoin
    obtain ⟨m, -, hm⟩ := Option.bind_eq_some_iff.mp hjoin
    obtain ⟨e', hn, heq⟩ := Option.map_eq_some_iff.mp hm
    cases heq
    exact ⟨mem_set h.calls (hwait _ _ _).1,
      mem_set h.entries (hentry _ _ _ (h.entries e (List.mem_of_getElem? hn)))⟩
  · have hstarted := hrules.starts c.options ⟨s.sh, .start s.entries.length c.lo.randoms c.lo.uuid⟩
    exact ⟨mem_set h.calls (hwait _ _ _).1,
      mem_set (mem_append h.entries hstarted) (hentry _ _ _ hstarted)⟩

/-- A call whose lookup has been answered. -/
theorem tasks_continue (h : Tasks L E O s) (hl : L c.lookup)
    (ho : ∀ r, c.outcome = some r → O r) :
    Tasks L E O (continueCall settings platform leases honest s i c) := by
  unfold continueCall
  split
  · rename_i err herror
    exact ⟨mem_set h.calls (.settle hl ho (hrules.failed err (herror ▸ hl))), h.entries⟩
  · rename_i cached hfound
    exact ⟨mem_set h.calls (.settle hl ho (hrules.found cached (hfound ▸ hl))), h.entries⟩
  · exact tasks_join hrules h hl ho
  · rename_i herror hfound hnone
    refine ⟨mem_set h.calls ⟨hl, fun r hr => ?_, ho⟩, h.entries⟩
    rcases r with err | _ | cached
    · exact absurd hr (herror err)
    · exact absurd hr hnone
    · exact absurd hr (hfound cached)

theorem tasks_call {options : ArticleSearchOptions} {signal : Option Bool} {randoms : Nat → Rat}
    {uuid : JsString} (h : Tasks L E O s) :
    Tasks L E O (searchArticles settings platform leases honest s options signal randoms uuid) := by
  obtain ⟨c, heq, -, -, -, hcases⟩ :=
    searchArticles_cases settings platform leases honest s options signal randoms uuid
  rw [heq]
  refine ⟨mem_append h.calls ?_, h.entries⟩
  rcases hcases with ⟨-, hlookup, hout⟩ | ⟨-, hlookup, hout⟩
  · refine ⟨hlookup ▸ hrules.gone, fun _ _ => .inl (by rw [hout]; rfl), fun r hr => ?_⟩
    rw [hout] at hr
    cases hr
    exact hrules.aborted
  · refine ⟨hlookup ▸ hrules.reads _, fun r hr => ?_, fun r hr => ?_⟩
    · cases hlookup.symm.trans hr
    · rw [hout] at hr
      cases hr

theorem tasks_disconnect (h : Tasks L E O s) (hi : s.calls[i]? = some c) :
    Tasks L E O (disconnect s i c) := by
  have hc := h.calls c (List.mem_of_getElem? hi)
  have hgone : CallTask L O { c with lo.client := true } := ⟨hc.lookup, hc.turned, hc.outcome⟩
  unfold disconnect
  dsimp only
  split
  · rename_i w hw
    split
    · split
      · rename_i e hn
        have hleft : ((release w e).2).promise = e.promise :=
          (release_keeps w e Shared.initial).2.2.promise
        refine ⟨mem_set h.calls (.settle hc.lookup hc.outcome hrules.aborted),
          mem_set h.entries ?_⟩
        exact hleft ▸ h.entries e (List.mem_of_getElem? hn)
      · exact ⟨mem_set h.calls hgone, h.entries⟩
    · exact ⟨mem_set h.calls hgone, h.entries⟩
  · exact ⟨mem_set h.calls hgone, h.entries⟩

omit hrules in
theorem tasks_setEntry (h : Tasks L E O s) (he : E e.promise) : Tasks L E O (s.setEntry n e) :=
  ⟨h.calls, mem_set h.entries he⟩

theorem tasks_step {ev : Event} (h : Tasks L E O s) (hev : ev.AnsweredBy good)
    (hs : step settings platform leases honest s ev = some s') : Tasks L E O s' := by
  cases ev with
  | call options signal randoms uuid =>
    cases hs
    exact tasks_call hrules h
  | callReply i answer =>
    obtain ⟨c, lookup, v, hi, hr, rfl⟩ := step_callReply hs
    have hc := h.calls c (List.mem_of_getElem? hi)
    exact tasks_continue hrules ⟨h.calls, h.entries⟩ (hrules.looks _ _ _ _ _ hev hc.lookup hr)
      hc.outcome
  | jobReply n answer =>
    obtain ⟨e, promise, v, hn, hr, rfl⟩ := step_jobReply hs
    have he := hrules.works _ _ _ _ _ hev (h.entries e (List.mem_of_getElem? hn)) hr
    exact tasks_setEntry (s := { s with sh := v.sh }) ⟨h.calls, h.entries⟩ he
  | markSettled n =>
    obtain ⟨e, r, hn, hp, hsettled, rfl⟩ := step_markSettled hs
    have he := h.entries e (List.mem_of_getElem? hn)
    unfold markInFlightSettled
    dsimp only
    split
    · exact ⟨h.calls, mem_set h.entries he⟩
    · exact tasks_setEntry h he
  | deliver i =>
    obtain ⟨c, w, e, r, hi, hw, hn, hp, -, -, rfl⟩ := step_deliver hs
    have hc := h.calls c (List.mem_of_getElem? hi)
    have he := h.entries e (List.mem_of_getElem? hn)
    have hleft : ((release w e).2).promise = e.promise :=
      (release_keeps w e Shared.initial).2.2.promise
    have htold : CallTask L O (deliver c w e r).1 :=
      .settle hc.lookup hc.outcome (hrules.told r _ (hp ▸ he))
    exact ⟨mem_set h.calls htold, mem_set h.entries (hleft ▸ he)⟩
  | disconnect i =>
    obtain ⟨c, hi, -, rfl⟩ := step_disconnect hs
    exact tasks_disconnect hrules h hi
  | shutdown =>
    cases hs
    exact ⟨h.calls, h.entries⟩
  | deadline n =>
    obtain ⟨e, lo, hn, hlo, rfl⟩ := step_deadline hs
    exact tasks_setEntry h (h.entries e (List.mem_of_getElem? hn))
  | renewed n result =>
    obtain ⟨e, lo, hn, hlo, rfl⟩ := step_renewed hs
    exact tasks_setEntry h (h.entries e (List.mem_of_getElem? hn))
  | elapse ms =>
    cases hs
    exact ⟨h.calls, h.entries⟩

end

theorem Tasks.initial : Tasks L E O .initial := ⟨List.forall_mem_nil _, List.forall_mem_nil _⟩

end NewsApi.Services
