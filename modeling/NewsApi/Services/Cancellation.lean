import NewsApi.Services.Outcomes
import NewsApi.Services.Subscribers

/-! # Cancellation stays with the client who disconnected

A call that is still there is served by the search it joined, unless that
search had been aborted before: an aborted search stays in the map until it has
settled, and whoever joins it meanwhile is cancelled with it. -/
namespace NewsApi.Services
open NewsApi.Async NewsApi.Text NewsApi.Types NewsApi.Config NewsApi.Errors
open NewsApi.Runtime NewsApi.Providers NewsApi.Async.SingleFlight

variable {settings : Settings} {platform : Platform} {leases : Bool}
  {s : Process} {c : Call} {e : InFlightSearch}

/-- The search of a call that is still there was not aborted after the call joined. -/
theorem Process.Ok.unaborted {w : Wait} (h : s.Ok) (hc : c ∈ s.calls)
    (hclient : c.lo.client = false) (hw : c.wait = some w) (hn : s.entries[w.entry]? = some e)
    (hfound : w.foundAborted = false) : e.lo.client = false := by
  have hboard := h.board.callers c.caller (List.mem_map_of_mem hc)
  unfold Caller.Ok Call.caller Call.stage at hboard
  cases ho : c.outcome with
  | none =>
    simp only [hw, ho] at hboard
    obtain ⟨-, f, hf, hlate⟩ := hboard
    cases (board_flights hn).symm.trans hf
    exact hlate hfound
  | some r =>
    simp only [hw, ho] at hboard
    obtain ⟨f, hf, hserved⟩ := hboard
    cases (board_flights hn).symm.trans hf
    exact (hserved hclient).2 hfound

/-- In every run without a shutdown in which no call joins a search that is
already aborted, a call whose own signal is not aborted is not cancelled. -/
theorem no_foreign_cancellation
    (hs : Reachable (step settings platform leases true) .initial s)
    (hshutdown : s.sh.shutdown = false)
    (hfound : ∀ c ∈ s.calls, ∀ w, c.wait = some w → w.foundAborted = false) :
    ∀ c ∈ s.calls, c.lo.client = false →
      ∀ err, c.outcome = some (.error err) → isRequestAbortedError err = false := by
  obtain ⟨hok, hknown⟩ := known_of_reachable hs
  intro c hc hclient err herr
  rcases ((hknown.answers c hc).outcome _ herr).error_cases with ⟨hgone, -⟩ | ⟨w, e, hw, hn, hp⟩
  · exact nomatch hclient.symm.trans hgone
  · have hend := (hknown.mem hn).outcome hp
    rcases hend with haborted | ⟨-, hcancel⟩
    · exact nomatch (hok.unaborted hc hclient hw hn (hfound c hc w hw)).symm.trans haborted
    · rw [Bool.eq_false_iff]
      exact fun ha => nomatch hshutdown.symm.trans (hcancel rfl ha)

/-- The provider refuses the request. -/
def failingProvider : (c : Command) → Option (Reply c)
  | .axiosGet _ => some (.error (.axios ⟨none, some (400, [])⟩))
  | c => emptyStore c

/-- The first of two calls disconnects; the provider refuses the request. -/
def othersLeave : List Event :=
  oneLeaves ++ List.replicate 7 (.jobReply 0 failingProvider) ++ [.markSettled 0, .deliver 1]

/-- The second call is told what the provider answered. -/
theorem no_foreign_cancellation_othersLeave :
    ∃ s c err, run (step .default .plain false true) .initial othersLeave = some s ∧
      s.calls[1]? = some c ∧ c.outcome = some (.error err) ∧ isRequestAbortedError err = false := by
  have hrun : (run (step .default .plain false true) .initial othersLeave).map (fun s =>
      (s.sh.shutdown, s.calls.all (fun c => c.wait.all (!·.foundAborted)),
        (s.calls[1]?).map fun c => (c.lo.client, c.outcome))) =
      some (false, true, some (false,
        some (.error (mapAxiosError .plain 0 ⟨none, some (400, [])⟩)))) := rfl
  obtain ⟨s, hs, h⟩ := Option.map_eq_some_iff.mp hrun
  obtain ⟨hshutdown, h⟩ := Prod.mk.inj h
  obtain ⟨hwaits, hcall⟩ := Prod.mk.inj h
  obtain ⟨c, hc, h⟩ := Option.map_eq_some_iff.mp hcall
  obtain ⟨hclient, ho⟩ := Prod.mk.inj h
  have hfound : ∀ c ∈ s.calls, ∀ w, c.wait = some w → w.foundAborted = false := by
    intro c hc w hw
    have := List.all_eq_true.mp hwaits c hc
    rw [hw] at this
    simpa using this
  exact ⟨s, c, _, hs, hc, ho, no_foreign_cancellation ⟨_, hs⟩ hshutdown hfound c
    (List.mem_of_getElem? hc) hclient _ ho⟩

/-- The first call disconnects while its lease is being acquired; the second
arrives before that search has settled. -/
def joinsAborted : List Event :=
  [sampleCall (some false), .callReply 0 emptyStore, .callReply 0 emptyStore,
    .jobReply 0 emptyStore, .disconnect 0, sampleCall none, .callReply 1 emptyStore,
    .callReply 1 emptyStore, .jobReply 0 emptyStore, .markSettled 0, .deliver 1]

/-- The second call, which has no signal at all, is cancelled. -/
theorem cancelled_by_others :
    ∃ s c, run (step .default .plain true true) .initial joinsAborted = some s ∧
      s.sh.shutdown = false ∧ c ∈ s.calls ∧ c.lo.client = false ∧
      c.outcome = some (.error .requestAborted) := by
  have hrun : (run (step .default .plain true true) .initial joinsAborted).map
      (fun s => (s.sh.shutdown, (s.calls[1]?).map fun c => (c.lo.client, c.outcome))) =
      some (false, some (false, some (.error .requestAborted))) := rfl
  obtain ⟨s, hs, h⟩ := Option.map_eq_some_iff.mp hrun
  obtain ⟨hshutdown, hcall⟩ := Prod.mk.inj h
  obtain ⟨c, hc, h⟩ := Option.map_eq_some_iff.mp hcall
  obtain ⟨hclient, ho⟩ := Prod.mk.inj h
  exact ⟨s, c, hs, hshutdown, List.mem_of_getElem? hc, hclient, ho⟩

end NewsApi.Services
