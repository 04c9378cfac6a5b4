import NewsApi.Async.Schedule
import NewsApi.Services.CallHistory
import NewsApi.Services.Settling

/-! # A process comes to rest

Once no calls arrive any more, everything settles: no call is left without an
outcome, and nothing stays in the map of in-flight searches. -/
namespace NewsApi.Services
open NewsApi.Async NewsApi.Text NewsApi.Types NewsApi.Config NewsApi.Errors
open NewsApi.Runtime NewsApi.Collections Filter

structure Process.Idle (s : Process) : Prop where
  answered : ∀ c ∈ s.calls, c.outcome.isSome = true
  settled : ∀ e ∈ s.entries, e.settled = true ∧ e.subscribers = 0
  unmapped : ∀ cacheKey, s.inFlightSearches cacheKey = none

variable {settings : Settings} {platform : Platform} {leases honest : Bool}
  {s s' : Process} {c : Call} {e : InFlightSearch} {i n : Nat}

theorem waitsOn_answered (h : c.Ok) (hc : c.outcome.isSome = true) (n : Nat) :
    c.waitsOn n = false := by
  unfold Call.waitsOn
  cases hw : c.wait with
  | none => rfl
  | some w =>
    have hended := h.ended w hw
    rw [hc, eq_comm, Bool.or_eq_true_iff] at hended
    rcases hended with hd | hg <;> simp [*]

/-- The accounts of a process in which all has settled. -/
theorem Process.Ok.idle (h : s.Ok) (hcalls : ∀ c ∈ s.calls, c.outcome.isSome = true)
    (hentries : ∀ e ∈ s.entries, e.settled = true) : s.Idle where
  answered := hcalls
  settled e he := by
    obtain ⟨n, hn⟩ := List.mem_iff_getElem?.mp he
    refine ⟨hentries e he, ?_⟩
    rw [h.subscribers hn, List.countP_eq_zero.mpr fun c hc => ?_]
    · rfl
    · exact Bool.eq_false_iff.mp (waitsOn_answered (h.calls c hc) (hcalls c hc) n)
  unmapped cacheKey := by
    cases hmap : s.inFlightSearches cacheKey with
    | none => rfl
    | some n =>
      obtain ⟨f, hf, -, hs⟩ := h.board.live cacheKey n hmap
      obtain ⟨e, he, rfl⟩ := List.mem_map.mp (List.mem_of_getElem? hf)
      cases (hentries e he).symm.trans hs

/-- The call `i` has an outcome. -/
def Process.Answered (i : Nat) (s : Process) : Prop :=
  ∃ c, s.calls[i]? = some c ∧ c.outcome.isSome = true

theorem answered_step {ev : Event} (h : s.Answered i)
    (hs : step settings platform leases honest s ev = some s') : s'.Answered i := by
  obtain ⟨c, hi, hc⟩ := h
  cases hev : ev.arrives with
  | true =>
    cases ev <;> cases hev
    obtain ⟨new, hcalls, -⟩ := step_arrives hs
    exact ⟨c, hcalls ▸ getElem?_append_old hi _, hc⟩
  | false =>
    obtain ⟨c', hi', hstays⟩ := (step_calls hev hs).2 i c hi
    obtain ⟨r, hr⟩ := Option.isSome_iff_exists.mp hc
    exact ⟨c', hi', by rw [hstays.outcome r hr]; rfl⟩

/-- The search `n` has settled. -/
def Process.Settled (n : Nat) (s : Process) : Prop :=
  s.Ok ∧ ∃ e, s.entries[n]? = some e ∧ e.settled = true

theorem settled_step {ev : Event} (h : s.Settled n)
    (hs : step settings platform leases honest s ev = some s') : s'.Settled n := by
  obtain ⟨hok, e, hn, he⟩ := h
  have ha := step_advances hok hs
  obtain ⟨e', hn', hnext⟩ := ha.entry hn
  exact ⟨ha.ok hok, e', hn', hnext.settled he⟩

theorem lookup_answered (h : c.Ok) (hc : c.outcome.isSome = true) : ∃ r, c.lookup = .pure r := by
  refine h.lookup fun hlooking => ?_
  unfold Call.stage at hlooking
  split at hlooking <;> simp_all

/-- Without a call that looks up, no search is created. -/
theorem searched_step {ev : Event} (hok : s.Ok)
    (hcalls : ∀ c ∈ s.calls, c.outcome.isSome = true)
    (hs : step settings platform leases honest s ev = some s') :
    s'.entries.length = s.entries.length := by
  have hlength : ∀ s : Process, s.searched.length = s.entries.length := fun s =>
    List.length_map _
  rcases step_searched hs with hsame | ⟨i, answer, c, rfl, hi, -⟩
  · rw [← hlength, hsame, hlength]
  · obtain ⟨c', lookup, v, hi', hr, -⟩ := step_callReply hs
    cases hi.symm.trans hi'
    have hmem := List.mem_of_getElem? hi
    obtain ⟨r, hpure⟩ := lookup_answered (hok.calls c hmem) (hcalls c hmem)
    rw [hpure] at hr
    cases hr

section
variable {x : Execution (step settings platform leases honest)} {t u : Nat}

/-- Where all has settled there is nothing to attend to. -/
theorem diligent_of_settled (hok : ∀ t, (x.state t).Ok)
    (hcalls : ∀ t, ∀ c ∈ (x.state t).calls, c.outcome.isSome = true)
    (htold : ∀ t, ∀ c ∈ (x.state t).calls, ∀ w, c.wait = some w → w.delivered = true)
    (hentries : ∀ t, ∀ e ∈ (x.state t).entries, e.settled = true)
    (hpasses : ∀ T, ∃ t, T ≤ (x.state t).sh.clock) : Diligent x where
  looked t i c hi hrun := by
    have hmem := List.mem_of_getElem? hi
    obtain ⟨r, hr⟩ := lookup_answered ((hok t).calls c hmem) (hcalls t c hmem)
    exact absurd hr (hrun r)
  worked t n e hn hrun := by
    have hmem := List.mem_of_getElem? hn
    obtain ⟨r, hr⟩ := ((hok t).entries e hmem).settled (hentries t e hmem)
    exact absurd hr (hrun r)
  marked t n e r hn _ hs := by cases (hentries t e (List.mem_of_getElem? hn)).symm.trans hs
  told t i c w e hi hw _ _ hd := by cases (htold t c (List.mem_of_getElem? hi) w hw).symm.trans hd
  passes := hpasses

/-- Where no calls arrive any more, all of them are answered. -/
theorem calls_answered (hx : Diligent x) (hsound : Sound settings honest (x.state t))
    (hlast : ∀ u ≥ t, ∀ ev, x.event u = some ev → ev.arrives = false) :
    ∀ᶠ u in atTop, ∀ c ∈ (x.state u).calls, c.outcome.isSome = true := by
  have hlength : ∀ u ≥ t, (x.state u).calls.length = (x.state t).calls.length := by
    intro u htu
    induction u, htu using Nat.le_induction with
    | base => rfl
    | succ u htu ih =>
      exact Execution.next_of (P := fun s => s.calls.length = (x.state t).calls.length) ih
        fun ev s' hev hs => (step_calls (hlast u htu ev hev) hs).1.trans ih
  have hall : ∀ᶠ u in atTop, ∀ i < (x.state t).calls.length, (x.state u).Answered i := by
    refine (eventually_all_finite (Set.finite_lt_nat _)).mpr fun i hi => ?_
    obtain ⟨u, -, c, r, hcall, ho⟩ := calls_settle hx hsound (List.getElem?_eq_getElem hi)
    exact Execution.eventually (fun _ _ _ => answered_step) ⟨c, hcall, by rw [ho]; rfl⟩
  filter_upwards [hall, eventually_ge_atTop t] with u hu htu c hc
  obtain ⟨i, hi⟩ := List.mem_iff_getElem?.mp hc
  have hlt := (List.getElem?_eq_some_iff.mp hi).1
  obtain ⟨c', hi', ho⟩ := hu i (by rwa [hlength u htu] at hlt)
  cases hi.symm.trans hi'
  exact ho

/-- Where every call is answered, every search settles. -/
theorem searches_settled (hx : Diligent x) (hsound : Sound settings honest (x.state t))
    (hcalls : ∀ u ≥ t, ∀ c ∈ (x.state u).calls, c.outcome.isSome = true) :
    ∀ᶠ u in atTop, ∀ e ∈ (x.state u).entries, e.settled = true := by
  have hok : ∀ u ≥ t, (x.state u).Ok := fun u htu =>
    (Execution.stays (fun _ _ _ => Sound.next) htu hsound).ok
  have hlength : ∀ u ≥ t, (x.state u).entries.length = (x.state t).entries.length := by
    intro u htu
    induction u, htu using Nat.le_induction with
    | base => rfl
    | succ u htu ih =>
      exact Execution.next_of (P := fun s => s.entries.length = (x.state t).entries.length) ih
        fun ev s' _ hs => (searched_step (hok u htu) (hcalls u htu) hs).trans ih
  have hall : ∀ᶠ u in atTop, ∀ n < (x.state t).entries.length, (x.state u).Settled n := by
    refine (eventually_all_finite (Set.finite_lt_nat _)).mpr fun n hn => ?_
    obtain ⟨u, htu, e, he, hs⟩ := search_settles hx hsound (List.getElem?_eq_getElem hn)
    exact Execution.eventually (fun _ _ _ => settled_step) ⟨hok u htu, e, he, hs⟩
  filter_upwards [hall, eventually_ge_atTop t] with u hu htu e he
  obtain ⟨n, hn⟩ := List.mem_iff_getElem?.mp he
  have hlt := (List.getElem?_eq_some_iff.mp hn).1
  obtain ⟨-, e', hn', hs⟩ := hu n (by rwa [hlength u htu] at hlt)
  cases hn.symm.trans hn'
  exact hs

/-- **A process comes to rest** once no calls arrive any more, whatever the cache,
the leases and the provider answer and whoever disconnects: every call has an
outcome, and no search is left in flight, with subscribers or in the map. -/
theorem process_rests (hx : Diligent x)
    (hinit : Reachable (step settings platform leases honest) .initial (x.state 0))
    (hlast : ∀ᶠ u in atTop, ∀ ev, x.event u = some ev → ev.arrives = false) :
    ∀ᶠ u in atTop, (x.state u).Idle := by
  have hsound : ∀ u, Sound settings honest (x.state u) := fun u =>
    Execution.stays (fun _ _ _ => Sound.next) (Nat.zero_le u) (sound_of_reachable hinit)
  obtain ⟨t, hlast⟩ := eventually_atTop.mp hlast
  have hanswered := calls_answered hx (hsound t) hlast
  obtain ⟨u, hu⟩ := eventually_atTop.mp hanswered
  filter_upwards [hanswered, searches_settled hx (hsound u) hu] with v hcalls hentries
  exact (hsound v).ok.idle hcalls hentries

end

/-! A search whose last write is answered. -/

def resting : Execution (step .default .plain true true) :=
  .ofSchedule beforeEnd fun t => lastEvents[t]?.getD (.elapse 1)

theorem resting_last (t : Nat) : resting.state (t + 3) =
    { resting.state 3 with sh.clock := (resting.state 3).sh.clock + t } := by
  induction t with
  | zero => rfl
  | succ t ih =>
    have hnext : resting.state (t + 1 + 3) =
        { resting.state (t + 3) with sh.clock := (resting.state (t + 3)).sh.clock + 1 } := rfl
    rw [hnext, ih]
    rfl

/-- The run has one search and one call, which has looked up. -/
theorem resting_single (t : Nat) : (resting.state t).entries.length = 1 ∧
    (resting.state t).calls.length = 1 := by
  match t with
  | 0 | 1 | 2 => exact ⟨rfl, rfl⟩
  | t + 3 =>
    rw [resting_last]
    exact ⟨rfl, rfl⟩

theorem diligent_resting : Diligent resting where
  looked t i c hi hrun := by
    obtain rfl := eq_zero_of_single (resting_single t).2 hi
    match t with
    | 0 | 1 | 2 => cases hi; exact absurd rfl (hrun _)
    | t + 3 => rw [resting_last] at hi; cases hi; exact absurd rfl (hrun _)
  worked t n e hn hrun := by
    obtain rfl := eq_zero_of_single (resting_single t).1 hn
    match t with
    | 0 => exact ⟨0, Nat.le_refl 0, brokenStore, rfl⟩
    | 1 | 2 => cases hn; exact absurd rfl (hrun _)
    | t + 3 => rw [resting_last] at hn; cases hn; exact absurd rfl (hrun _)
  marked t n e r hn hp hs := by
    obtain rfl := eq_zero_of_single (resting_single t).1 hn
    match t with
    | 0 => cases hn; cases hp
    | 1 => exact ⟨1, Nat.le_refl 1, rfl⟩
    | 2 => cases hn; cases hs
    | t + 3 => rw [resting_last] at hn; cases hn; cases hs
  told t i c w e hi hw hn hs hd := by
    obtain rfl := eq_zero_of_single (resting_single t).2 hi
    match t with
    | 0 | 1 => cases hi; cases hw; cases hn; cases hs
    | 2 => exact ⟨2, Nat.le_refl 2, rfl⟩
    | t + 3 => rw [resting_last] at hi; cases hi; cases hw; cases hd
  passes T := ⟨T + 3, by rw [resting_last]; exact Nat.le_add_left _ _⟩

theorem process_rests_resting :
    (resting.state 0).inFlightSearches (searchCacheKey sampleOptions) = some 0 ∧
      ∀ᶠ u in atTop, (resting.state u).Idle := by
  refine ⟨rfl, process_rests diligent_resting ⟨writing, rfl⟩ (.of_forall fun u ev hev => ?_)⟩
  rw [Execution.scheduled_event hev]
  match u with
  | 0 | 1 | 2 | u + 3 => rfl

end NewsApi.Services
