import Mathlib.Data.List.Nodup
import Mathlib.Data.List.Perm.Subperm
import NewsApi.Runtime.CombinedRuns

/-! # Listeners on the shutdown signal

Searches of the provider where `AbortSignal.any` is missing. A search combines
the caller's signal, if any, with the shutdown signal and with its deadline,
whose timer is cancelled when the search settles. -/
namespace NewsApi.Runtime.Cancellation
open NewsApi.Async

/-- The shutdown controller is the first one. -/
def shutdownSignal : Nat := 0

structure Search where
  signal : Option Nat
  deadline : Nat
  requestSignal : Nat
  settled : Bool

def Search.active (x : Search) : List Nat :=
  [x.signal, some shutdownSignal, some x.deadline].reduceOption

/-- What the search leaves on its signals. -/
def Search.listener (x : Search) : Listener := .abort x.active x.requestSignal

structure Searches where
  process : Process
  /-- in the order of their beginning -/
  searches : List Search

inductive SearchEvent where
  /-- a step of other code, or of a dispatch -/
  | outside (event : Event)
  | search (signal : Option Nat)
  /-- the timer of a deadline -/
  | deadline (k : Nat)
  /-- the search fulfils or rejects, and its `finally` is done -/
  | settle (k : Nat)

/-- Other code neither combines signals nor listens to the shutdown signal, and
has no access to the deadlines. -/
def Searches.isOutside (s : Searches) : Event → Bool
  | .any _ | .combine _ _ => false
  | .abort controller => s.searches.all fun x => x.deadline ≠ controller
  | .listen signal _ => signal ≠ shutdownSignal
  | .controller | .unlisten _ _ | .dispatch => true

/-- A search settles in a reaction of its promise, so not within a dispatch. -/
def searchStep (s : Searches) : SearchEvent → Option Searches
  | .outside event =>
    if s.isOutside event then (step s.process event).map fun process => { s with process }
    else none
  | .search signal => do
    let deadline := s.process.signals.next
    let signals := [signal, some shutdownSignal, some deadline]
    let created ← step s.process .controller
    let requestSignal := (combineAbortSignals false signals created.signals).1
    let process ← step created (.combine false signals)
    some ⟨process, s.searches ++ [⟨signal, deadline, requestSignal, false⟩]⟩
  | .deadline k => do
    let x ← s.searches[k]?
    if x.settled then none
    else (step s.process (.abort x.deadline)).map fun process => { s with process }
  | .settle k => do
    let x ← s.searches[k]?
    if x.settled || !s.process.signals.pending.isEmpty then none
    else some { s with searches := s.searches.set k { x with settled := true } }

def Searches.initial : Searches := ⟨⟨Signals.empty.controller, [shutdownSignal]⟩, []⟩

/-- The listeners on the shutdown signal, which are those of unsettled searches. -/
structure Clean (s : Searches) : Prop where
  unsettled : ∀ l ∈ s.process.signals.listeners shutdownSignal,
    ∃ x ∈ s.searches, x.settled = false ∧ l = x.listener
  count : (s.process.signals.listeners shutdownSignal).length ≤
    (s.searches.filter fun x => !x.settled).length

/-- One of the signals of a search has aborted. -/
def Cancelled (s : Searches) (k : Nat) : Prop :=
  ∃ x ∈ s.searches[k]?, ∃ i ∈ x.active, s.process.signals.aborted i = true

/-! ## What every run keeps -/

structure Tracked (s : Searches) : Prop where
  sound : Sound s.process
  shutdown : shutdownSignal < s.process.signals.next
  combined : ∀ x ∈ s.searches, Combined s.process.signals x.active x.requestSignal ∧
    x.requestSignal ∉ s.process.held
  distinct : (s.searches.map Search.requestSignal).Nodup
  listeners : ∀ l ∈ s.process.signals.listeners shutdownSignal, ∃ x ∈ s.searches, l = x.listener

/-- Every settled search was cancelled. -/
def Ended (s : Searches) : Prop :=
  ∀ x ∈ s.searches, x.settled = true → s.process.signals.aborted x.requestSignal = true

theorem shutdownSignal_mem_active (x : Search) : shutdownSignal ∈ x.active := by
  cases hsignal : x.signal <;> simp [Search.active, hsignal]

theorem Tracked.clean {s : Searches} (h : Tracked s) (hended : Ended s) : Clean s := by
  have hunsettled : ∀ l ∈ s.process.signals.listeners shutdownSignal,
      ∃ x ∈ s.searches, x.settled = false ∧ l = x.listener := by
    intro l hl
    obtain ⟨x, hx, rfl⟩ := h.listeners l hl
    refine ⟨x, hx, ?_, rfl⟩
    cases hsettled : x.settled with
    | false => rfl
    | true => exact absurd hl ((h.combined x hx).1.cleared (hended x hx hsettled) _)
  refine ⟨hunsettled, ?_⟩
  have hsub : s.process.signals.listeners shutdownSignal ⊆
      (s.searches.filter fun x => !x.settled).map Search.listener := by
    intro l hl
    obtain ⟨x, hx, hsettled, rfl⟩ := hunsettled l hl
    exact List.mem_map.mpr ⟨x, List.mem_filter.mpr ⟨hx, by simp [hsettled]⟩, rfl⟩
  have hle := (List.subperm_of_subset (h.sound.valid.nodup _) hsub).length_le
  rwa [List.length_map] at hle

theorem outside_listeners {p q : Process} {event : Event} {i : Nat} {l : Listener}
    (hi : i < p.signals.next) (hcombine : ∀ hasAny signals, event ≠ .combine hasAny signals)
    (hlisten : ∀ id, event ≠ .listen i id) (hstep : step p event = some q)
    (hl : l ∈ q.signals.listeners i) : l ∈ p.signals.listeners i := by
  cases step_cases hstep with
  | controller => simpa [Signals.controller, Signals.create, hi.ne] using hl
  | any _ => simpa [Signals.any, Signals.create, hi.ne] using hl
  | combine _ => exact absurd rfl (hcombine _ _)
  | abort _ => simpa using hl
  | @listen signal id _ =>
    rcases Signals.mem_addEventListener.mp hl with hold | ⟨rfl, -⟩
    · exact hold
    · exact absurd rfl (hlisten id)
  | unlisten => exact (Signals.mem_removeEventListener.mp hl).1
  | dispatch hperformed =>
    refine Signals.listeners_of_perform hl (fun l' s hmem => ?_) hperformed
    cases l' with
    | other id => exact hmem
    | abort active controller =>
      rw [callback, Signals.abort_listeners] at hmem
      exact (Signals.mem_removeAll.mp hmem).1

/-- A step of the process that starts no search. -/
theorem Tracked.process {s : Searches} (h : Tracked s) {event : Event} {process : Process}
    (hstep : step s.process event = some process)
    (hcombine : ∀ hasAny signals, event ≠ .combine hasAny signals)
    (hlisten : ∀ id, event ≠ .listen shutdownSignal id) : Tracked { s with process } where
  sound := step_sound h.sound hstep
  shutdown := h.shutdown.trans_le (step_later h.sound hstep).next_le
  combined x hx := step_combined h.sound (h.combined x hx).1 (h.combined x hx).2 hstep
  distinct := h.distinct
  listeners l hl := h.listeners l (outside_listeners h.shutdown hcombine hlisten hstep hl)

theorem Ended.later {s : Searches} (h : Ended s) (htracked : Tracked s) {process : Process}
    (hlater : s.process.signals.Later process.signals) : Ended { s with process } :=
  fun x hx hsettled => hlater.aborted _ (htracked.combined x hx).1.lt (h x hx hsettled)

/-- The combination of a search listens on the shutdown signal, and nothing else is new there. -/
theorem combineAbortSignals_listeners {s : Signals Listener} (hvalid : s.Valid)
    {signals : List (Option Nat)} (hexist : ∀ i ∈ signals.reduceOption, i < s.next) {i : Nat}
    (hi : i < s.next) {l : Listener}
    (hl : l ∈ (combineAbortSignals false signals s).2.listeners i) :
    l ∈ s.listeners i ∨ l = .abort signals.reduceOption s.next := by
  have hcreated : ∀ l, l ∈ s.controller.listeners i → l ∈ s.listeners i := by
    intro l hl
    simpa [Signals.controller, Signals.create, hi.ne] using hl
  rcases @combineAbortSignals_cases s hvalid false signals hexist with ⟨-, he⟩ |
    ⟨signal, -, he⟩ | ⟨-, hany, -⟩ | ⟨-, -, -, he⟩ | ⟨-, -, -, he⟩
  · rw [he] at hl
    exact .inl (hcreated l hl)
  · rw [he] at hl
    exact .inl hl
  · cases hany
  · rw [he, callback, Signals.abort_listeners] at hl
    exact .inl (hcreated l (Signals.mem_removeAll.mp hl).1)
  · rw [he] at hl
    exact (Signals.mem_addAll.mp hl).imp (hcreated l) fun hnew => hnew.2

theorem search_cases {s t : Searches} {signal : Option Nat}
    (hstep : searchStep s (.search signal) = some t) : ∃ created process,
      step s.process .controller = some created ∧
      step created (.combine false
        [signal, some shutdownSignal, some s.process.signals.next]) = some process ∧
      t = ⟨process, s.searches ++ [⟨signal, s.process.signals.next, (combineAbortSignals false
        [signal, some shutdownSignal, some s.process.signals.next] created.signals).1,
          false⟩]⟩ := by
  simp only [searchStep, Option.bind_eq_bind, Option.bind_eq_some_iff] at hstep
  obtain ⟨created, hcreated, process, hprocess, ht⟩ := hstep
  exact ⟨created, process, hcreated, hprocess, (Option.some.inj ht).symm⟩

theorem Tracked.search {s t : Searches} (h : Tracked s) {signal : Option Nat}
    (hstep : searchStep s (.search signal) = some t) : Tracked t := by
  obtain ⟨created, process, hcreated, hprocess, rfl⟩ := search_cases hstep
  have h' := h.process hcreated (by simp) (by simp)
  have hexist : ∀ i ∈ [signal, some shutdownSignal, some s.process.signals.next].reduceOption,
      i < created.signals.next := by
    cases step_cases hprocess with
    | combine hexist => exact hexist
  have hlength : [signal, some shutdownSignal,
      some s.process.signals.next].reduceOption.length ≠ 1 := by
    cases signal <;> simp
  obtain ⟨hid, hcombined, -⟩ :=
    fallback_combined h'.sound.valid h'.sound.closures hexist hlength
  have hq : { created with signals := (combineAbortSignals false
      [signal, some shutdownSignal, some s.process.signals.next] created.signals).2 } =
        process := by
    cases step_cases hprocess with
    | combine _ => rfl
  rw [hid]
  have hstart : Combined process.signals (Search.active ⟨signal, s.process.signals.next,
      created.signals.next, false⟩) created.signals.next := hq ▸ hcombined
  have hlater := step_later h'.sound hprocess
  refine ⟨step_sound h'.sound hprocess, h'.shutdown.trans_le hlater.next_le, ?_, ?_, ?_⟩
  · intro x hx
    rcases List.mem_append.mp hx with hold | hnew
    · exact step_combined h'.sound (h'.combined x hold).1 (h'.combined x hold).2 hprocess
    · rw [List.mem_singleton.mp hnew]
      refine ⟨hstart, fun hheld => ?_⟩
      rw [← hq] at hheld
      exact Nat.lt_irrefl _ (h'.sound.held_lt _ hheld)
  · rw [List.map_append, List.nodup_append]
    refine ⟨h.distinct, by simp, fun id hid id' hid' => ?_⟩
    obtain ⟨x, hx, rfl⟩ := List.mem_map.mp hid
    obtain rfl : id' = created.signals.next := by simpa using hid'
    exact (h'.combined x hx).1.lt.ne
  · intro l hl
    rw [← hq] at hl
    rcases combineAbortSignals_listeners h'.sound.valid hexist h'.shutdown hl with hold | rfl
    · obtain ⟨x, hx, rfl⟩ := h'.listeners l hold
      exact ⟨x, List.mem_append_left _ hx, rfl⟩
    · exact ⟨_, List.mem_append_right _ (List.mem_singleton_self _), rfl⟩

theorem Ended.search {s t : Searches} (h : Ended s) (htracked : Tracked s)
    {signal : Option Nat} (hstep : searchStep s (.search signal) = some t) : Ended t := by
  obtain ⟨created, process, hcreated, hprocess, rfl⟩ := search_cases hstep
  have hcreation := htracked.process hcreated (by simp) (by simp)
  have hlater := (step_later htracked.sound hcreated).trans (step_later hcreation.sound hprocess)
  intro x hx hsettled
  rcases List.mem_append.mp hx with hold | hnew
  · exact h.later htracked hlater x hold hsettled
  · rw [List.mem_singleton.mp hnew] at hsettled
    cases hsettled

theorem settle_cases {s t : Searches} {k : Nat} (hstep : searchStep s (.settle k) = some t) :
    ∃ x, s.searches[k]? = some x ∧ x.settled = false ∧ s.process.signals.pending = [] ∧
      t = { s with searches := s.searches.set k { x with settled := true } } := by
  simp only [searchStep, Option.bind_eq_bind, Option.bind_eq_some_iff,
    Option.ite_none_left_eq_some, Option.some.injEq] at hstep
  obtain ⟨x, hx, hnot, rfl⟩ := hstep
  simp only [Bool.or_eq_true, Bool.not_eq_true', not_or, Bool.not_eq_true,
    Bool.not_eq_false, List.isEmpty_iff] at hnot
  exact ⟨x, hx, hnot.1, hnot.2, rfl⟩

theorem map_set_same {α β : Type} {l : List α} {k : Nat} {x : α} (y : α) (f : α → β)
    (hx : l[k]? = some x) (h : f y = f x) : (l.set k y).map f = l.map f := by
  refine List.ext_getElem? fun i => ?_
  by_cases hi : k = i
  · subst hi
    obtain ⟨hk, -⟩ := List.getElem?_eq_some_iff.mp hx
    rw [List.getElem?_map, List.getElem?_map, List.getElem?_set_self hk, hx]
    exact congrArg some h
  · simp [List.getElem?_set_ne hi]

theorem Tracked.settle {s t : Searches} {k : Nat} (h : Tracked s)
    (hstep : searchStep s (.settle k) = some t) : Tracked t := by
  obtain ⟨x, hx, -, -, rfl⟩ := settle_cases hstep
  have hmem := List.mem_of_getElem? hx
  refine ⟨h.sound, h.shutdown, ?_, ?_, ?_⟩
  · intro y hy
    rcases List.mem_or_eq_of_mem_set hy with hold | rfl
    · exact h.combined y hold
    · exact h.combined x hmem
  · rw [map_set_same { x with settled := true } Search.requestSignal hx rfl]
    exact h.distinct
  · intro l hl
    obtain ⟨y, hy, rfl⟩ := h.listeners l hl
    have hlistener : y.listener ∈
        (s.searches.set k { x with settled := true }).map Search.listener := by
      rw [map_set_same { x with settled := true } Search.listener hx rfl]
      exact List.mem_map_of_mem hy
    obtain ⟨z, hz, he⟩ := List.mem_map.mp hlistener
    exact ⟨z, hz, he.symm⟩

/-- Where one of its signals has aborted, the signal of the search has, once no
dispatch is in progress. -/
theorem Ended.settle {s t : Searches} {k : Nat} (h : Ended s) (htracked : Tracked s)
    (hcancelled : Cancelled s k) (hstep : searchStep s (.settle k) = some t) : Ended t := by
  obtain ⟨x, hx, -, hidle, rfl⟩ := settle_cases hstep
  intro y hy hsettled
  rcases List.mem_or_eq_of_mem_set hy with hold | rfl
  · exact h y hold hsettled
  · obtain ⟨z, hz, i, hi, ha⟩ := hcancelled
    obtain rfl := Option.some.inj (hx.symm.trans hz)
    have hcombined := (htracked.combined x (List.mem_of_getElem? hx)).1
    show s.process.signals.aborted x.requestSignal = true
    cases hsignal : s.process.signals.aborted x.requestSignal with
    | true => rfl
    | false =>
      have hdue := (hcombined.waiting hsignal i hi).2 ha
      simp [hidle] at hdue

theorem outside_cases {s t : Searches} {event : Event}
    (hstep : searchStep s (.outside event) = some t) : ∃ process,
      step s.process event = some process ∧ t = { s with process } ∧
      (∀ hasAny signals, event ≠ .combine hasAny signals) ∧
      ∀ id, event ≠ .listen shutdownSignal id := by
  simp only [searchStep, Option.ite_none_right_eq_some, Option.map_eq_some_iff] at hstep
  obtain ⟨houtside, process, hprocess, rfl⟩ := hstep
  refine ⟨process, hprocess, rfl, ?_, ?_⟩
  · rintro hasAny signals rfl
    cases houtside
  · rintro id rfl
    simp [Searches.isOutside] at houtside

theorem deadline_cases {s t : Searches} {k : Nat} (hstep : searchStep s (.deadline k) = some t) :
    ∃ controller process, step s.process (.abort controller) = some process ∧
      t = { s with process } := by
  simp only [searchStep, Option.bind_eq_bind, Option.bind_eq_some_iff,
    Option.ite_none_left_eq_some, Option.map_eq_some_iff] at hstep
  obtain ⟨x, -, -, process, hprocess, rfl⟩ := hstep
  exact ⟨x.deadline, process, hprocess, rfl⟩

theorem searchStep_tracked {s t : Searches} {event : SearchEvent} (h : Tracked s)
    (hstep : searchStep s event = some t) : Tracked t := by
  cases event with
  | outside event =>
    obtain ⟨process, hprocess, rfl, hcombine, hlisten⟩ := outside_cases hstep
    exact h.process hprocess hcombine hlisten
  | search signal => exact h.search hstep
  | deadline k =>
    obtain ⟨controller, process, hprocess, rfl⟩ := deadline_cases hstep
    exact h.process hprocess (by simp) (by simp)
  | settle k => exact h.settle hstep

/-- A step keeps this where only cancelled searches settle. -/
theorem searchStep_ended {s t : Searches} {event : SearchEvent} (h : Ended s)
    (htracked : Tracked s) (hcancelled : ∀ k, event = .settle k → Cancelled s k)
    (hstep : searchStep s event = some t) : Ended t := by
  cases event with
  | outside event =>
    obtain ⟨process, hprocess, rfl, -, -⟩ := outside_cases hstep
    exact h.later htracked (step_later htracked.sound hprocess)
  | search signal => exact h.search htracked hstep
  | deadline k =>
    obtain ⟨controller, process, hprocess, rfl⟩ := deadline_cases hstep
    exact h.later htracked (step_later htracked.sound hprocess)
  | settle k => exact h.settle htracked (hcancelled k rfl) hstep

theorem initial_tracked : Tracked .initial where
  sound := @step_sound .initial _ .controller initial_sound rfl
  shutdown := Nat.zero_lt_one
  combined x hx := by cases hx
  distinct := List.nodup_nil
  listeners l hl := by cases hl

theorem initial_ended : Ended .initial := by
  intro x hx
  cases hx

/-! ## Which runs leave nothing behind -/

/-- A search that settles while none of its signals has aborted leaves its listener. -/
theorem settle_leaves {s t : Searches} {k : Nat} (h : Tracked s) (hclean : Clean t)
    (hstep : searchStep s (.settle k) = some t) : Cancelled s k := by
  have ht := h.settle hstep
  obtain ⟨x, hx, -, -, rfl⟩ := settle_cases hstep
  by_contra hnot
  have hcombined := (h.combined x (List.mem_of_getElem? hx)).1
  have hwaits : s.process.signals.aborted x.requestSignal = false := by
    cases ha : s.process.signals.aborted x.requestSignal with
    | false => rfl
    | true =>
      obtain ⟨i, hi, hia⟩ := hcombined.source ha
      exact absurd ⟨x, hx, i, hi, hia⟩ hnot
  have hlistens := (hcombined.waiting hwaits _ (shutdownSignal_mem_active x)).1
  obtain ⟨y, hy, hunsettled, he⟩ := hclean.unsettled _ hlistens
  -- the settled search is the only one with its controller
  have hk := (List.getElem?_eq_some_iff.mp hx).1
  have hsettled : { x with settled := true } ∈ s.searches.set k { x with settled := true } :=
    List.mem_of_getElem? (List.getElem?_set_self hk)
  have hid : y.requestSignal = x.requestSignal := (Listener.abort.inj he).2.symm
  obtain rfl := List.inj_on_of_nodup_map ht.distinct hy hsettled hid
  cases hunsettled

/-- **Searches leave nothing on the shutdown signal** in the runs in which they
settle only after one of their signals has aborted, and in no others. -/
theorem clean_iff_cancelled (events : List SearchEvent) :
    (∀ before after s, events = before ++ after →
      run searchStep .initial before = some s → Clean s) ↔
    ∀ before k after s t, events = before ++ .settle k :: after →
      run searchStep .initial before = some s → searchStep s (.settle k) = some t →
      Cancelled s k := by
  constructor
  · intro hclean before k after s t hevents hbefore hsettle
    have hafter : run searchStep .initial (before ++ [.settle k]) = some t := by
      simp [run_append, hbefore, run, hsettle]
    have ht := hclean (before ++ [.settle k]) after t (by simp [hevents]) hafter
    have hs := run_invariant (fun _ _ _ => searchStep_tracked) initial_tracked hbefore
    exact settle_leaves hs ht hsettle
  · intro hcancelled before after s hevents hbefore
    have hkept := run_invariant_where
      (Q := fun s event => ∀ k t, event = .settle k → searchStep s event = some t → Cancelled s k)
      (P := fun s => Tracked s ∧ Ended s) ?_ ⟨initial_tracked, initial_ended⟩ ?_ hbefore
    · exact hkept.1.clean hkept.2
    · intro s event t h hok hstep
      exact ⟨searchStep_tracked h.1 hstep,
        searchStep_ended h.2 h.1 (fun k he => hok k t he hstep) hstep⟩
    · rintro first event rest t rfl hfirst k u rfl hstep
      exact hcancelled first k (rest ++ after) t u (by simp [hevents]) hfirst hstep

/-- One search that finds its articles. -/
theorem listener_left : ¬∀ (events : List SearchEvent) (s : Searches),
    run searchStep .initial events = some s → Clean s := by
  intro hall
  have hclean := hall [.search none, .settle 0] _ rfl
  have hcount := hclean.count
  revert hcount
  decide

end NewsApi.Runtime.Cancellation
