import NewsApi.Providers.Breaker
import NewsApi.Providers.VisitSpec

/-! # Searches one after the other

A search is called only when the one before has settled. Then the three fields
of the circuit are the textbook breaker, over runs of any length and with every
outcome, at any times. -/
namespace NewsApi.Providers.Sequential
open NewsApi.Async NewsApi.Types NewsApi.Config NewsApi.Errors NewsApi.Patterns NewsApi.Runtime

/-- A search that has settled: its log, and the circuit before and after it. -/
structure Visited where
  log : Log
  before : CircuitState
  after : CircuitState
  result : Except JsError ArticleList

/-- `sh` is what the search under way was called with, if there is one. -/
structure Session : Type 1 where
  sh : Shared
  current : Option (Watched ArticleList)
  /-- newest first -/
  visits : List Visited

inductive Event where
  /-- `aborted` is whether the signal has aborted before the call -/
  | call (options : ArticleSearchOptions) (randoms : Nat → Rat) (aborted : Bool)
  | incident (i : Incident)

def Session.initial : Session where
  sh := .initial
  current := none
  visits := []

variable (settings : Settings) (platform : Platform) (honest : Bool)

/-- The search goes on, or it has settled. -/
def Session.observe (s : Session) (w : Watched ArticleList) : Session :=
  match w.prog with
  | .pure result => {
      sh := w.scene.state.sh
      current := none
      visits := ⟨w.scene.log, s.sh.circuit, w.scene.state.sh.circuit, result⟩ :: s.visits }
  | _ => { s with current := some w }

/-- What happens between searches. -/
def idle (sh : Shared) : Incident → Option Shared
  | .elapse ms => some { sh with clock := sh.clock + ms }
  | .shutdown => some { sh with shutdown := true }
  | _ => none

/-- Nobody else is there to leave the circuit in another state. -/
def alone : Incident → Bool
  | .others _ => false
  | _ => true

def step (s : Session) : Event → Option Session
  | .call options randoms aborted =>
    match s.current with
    | some _ => none
    | none => some (s.observe (Watched.start settings honest (search settings platform options)
        ⟨s.sh, { Local.start s.visits.length randoms [] with client := aborted }⟩))
  | .incident i =>
    if alone i then
      match s.current with
      | some w => (Watched.step settings honest w i).map s.observe
      | none => (idle s.sh i).map fun sh => { s with sh := sh }
    else none

/-! ## The textbook -/

/-- The breaker after these searches; one that came to no check is left out. -/
def breakerAfter : List Visited → CircuitBreaker
  | [] => .closed 0
  | v :: older =>
    match checkTime v.log with
    | none => breakerAfter older
    | some start => (breakerAfter older).call settings.failureThreshold settings.cooldownMs start
        (outcomeOf v.log)

/-- What a search did, `breaker` being what it found. -/
structure Conforms (breaker : CircuitBreaker) (v : Visited) : Prop where
  leftOut : checkTime v.log = none → v.after = v.before ∧ v.result = .error .requestAborted
  rejected : ∀ start, checkTime v.log = some start →
    breaker.admits settings.cooldownMs start = false →
      v.log.any isAttempt = false ∧ v.after = v.before ∧
        v.result = .error (circuitOpenError settings v.before start)
  admitted : ∀ start, checkTime v.log = some start →
    breaker.admits settings.cooldownMs start = true →
      ∃ outcome finish, outcomeOf v.log = some (outcome, finish) ∧
        (outcome = .cancelled → v.after.failures = v.before.failures)

structure Textbook (visits : List Visited) (circuit : CircuitState) : Prop where
  simulates : Simulates settings (breakerAfter settings visits) circuit
  conforms : ∀ v older, v :: older <:+ visits → Conforms settings (breakerAfter settings older) v

variable {settings platform honest} {s s' : Session} {visits : List Visited}

theorem Textbook.initial : Textbook settings [] .initial :=
  ⟨simulates_initial, fun v older h => absurd (List.suffix_nil.mp h) (List.cons_ne_nil v older)⟩

theorem settled_cancelled_failures (settings : Settings) (circuitState : CircuitRequestState)
    (now : Nat) (circuit : CircuitState) :
    (settled settings circuitState .cancelled now circuit).failures = circuit.failures := by
  cases circuitState <;> rfl

/-- One more search. -/
theorem Textbook.visit {log : Log} {before after : CircuitState}
    {result : Except JsError ArticleList} (h : Textbook settings visits before)
    (hv : Visit settings before log after result) :
    Textbook settings (⟨log, before, after, result⟩ :: visits) after := by
  suffices hnew :
      Simulates settings (breakerAfter settings (⟨log, before, after, result⟩ :: visits)) after ∧
        Conforms settings (breakerAfter settings visits) ⟨log, before, after, result⟩ by
    refine ⟨hnew.1, fun v' older hs => ?_⟩
    rcases List.suffix_cons_iff.mp hs with heq | hs
    · cases heq
      exact hnew.2
    · exact h.conforms v' older hs
  have hsim := h.simulates
  cases hv with
  | leftOut hs hn hk =>
    subst hk
    refine ⟨by simpa only [breakerAfter, hs] using hsim, ⟨fun _ => ⟨rfl, rfl⟩, ?_, ?_⟩⟩
    · intro start hs'
      cases hs.symm.trans hs'
    · intro start hs'
      cases hs.symm.trans hs'
  | rejected hs hn hc =>
    rename_i start error
    obtain ⟨rfl, rfl⟩ := assert_error hc
    have hrejects : (breakerAfter settings visits).admits settings.cooldownMs start = false := by
      rw [Bool.eq_false_iff]
      intro hadmits
      obtain ⟨circuitState, circuit', hok⟩ := hsim.check.mpr hadmits
      rw [hc] at hok
      cases hok
    refine ⟨by simpa [breakerAfter, hs, CircuitBreaker.call, hrejects] using hsim, ⟨?_, ?_, ?_⟩⟩
    · intro hs'
      cases hs.symm.trans hs'
    · intro start' hs' _
      cases hs.symm.trans hs'
      exact ⟨hn, rfl, rfl⟩
    · intro start' hs' hadmits
      cases hs.symm.trans hs'
      cases hrejects.symm.trans hadmits
  | admitted hs hc ho hl =>
    rename_i start finish circuitState found outcome
    subst hl
    have hadmits := hsim.check.mp ⟨circuitState, found, hc⟩
    refine ⟨?_, ⟨?_, ?_, ?_⟩⟩
    · simpa [breakerAfter, hs, CircuitBreaker.call, hadmits, ho] using hsim.after hc
    · intro hs'
      cases hs.symm.trans hs'
    · intro start' hs' hrejects
      cases hs.symm.trans hs'
      cases hadmits.symm.trans hrejects
    · intro start' _ _
      refine ⟨outcome, finish, ho, fun hcancelled => ?_⟩
      subst hcancelled
      have hsame := assert_failures settings start before
      rw [hc] at hsame
      exact (settled_cancelled_failures settings circuitState finish found).trans hsame

/-! ## Runs -/

/-- What is known of a search that starts with `circuit`. -/
abbrev SearchSound (settings : Settings) (honest : Bool) (circuit : CircuitState)
    (w : Watched ArticleList) : Prop :=
  Watched.Sound settings honest visitContract (VisitAt settings circuit) w

structure Inv (settings : Settings) (honest : Bool) (s : Session) : Prop where
  textbook : Textbook settings s.visits s.sh.circuit
  current : ∀ w, s.current = some w → SearchSound settings honest s.sh.circuit w

theorem Inv.initial : Inv settings honest .initial := by
  refine ⟨.initial, fun w hw => ?_⟩
  cases hw

theorem Inv.observe {w : Watched ArticleList} (h : Textbook settings s.visits s.sh.circuit)
    (hw : SearchSound settings honest s.sh.circuit w) : Inv settings honest (s.observe w) := by
  have hparked := hw.parked
  unfold Session.observe
  split
  · rename_i result hp
    rw [hp] at hparked
    have hvisit : VisitAt settings s.sh.circuit result w.scene := hparked
    refine ⟨h.visit hvisit, fun w' hw' => ?_⟩
    cases hw'
  · exact ⟨h, fun w' hw' => Option.some.inj hw' ▸ hw⟩

/-- What happens around a search leaves the circuit alone. -/
theorem rely_meanwhile {t : Scene} {i : Incident} {v : View} (hi : alone i = true)
    (h : Watched.meanwhile t.state i = some v) : visitContract.rely t (t.setState v) := by
  have hkept := Watched.kept_meanwhile h
  suffices hv : v.sh.circuit = t.state.sh.circuit ∧
      (t.state.lo.deadline = true → v.lo.deadline = true) by
    refine ⟨rfl, hv.1, fun ha => ?_⟩
    simp only [View.aborted, Bool.or_eq_true, Traced.setState_state] at ha ⊢
    exact ha.imp (.imp hkept.client hkept.shutdown) hv.2
  cases i with
  | resume answer => cases h
  | disconnect | shutdown | elapse ms => cases h; exact ⟨rfl, id⟩
  | others circuit => cases hi
  | deadline =>
    obtain ⟨lo, hlo, rfl⟩ := Option.map_eq_some_iff.mp h
    unfold fireDeadline at hlo
    split at hlo
    · cases hlo
    · split at hlo <;> cases hlo
      exact ⟨rfl, fun _ => rfl⟩

theorem Inv.step {e : Event} (h : Inv settings honest s)
    (hs : Sequential.step settings platform honest s e = some s') : Inv settings honest s' := by
  cases e with
  | call options randoms aborted =>
    simp only [Sequential.step] at hs
    split at hs
    · cases hs
    · cases hs
      refine .observe h.textbook (Watched.sound_start (Host.wp_mono (wp_search_visit ?_)
        fun r t ht => ⟨trivial, ht⟩))
      exact ⟨rfl, rfl, rfl, rfl⟩
  | incident i =>
    simp only [Sequential.step] at hs
    split at hs
    · rename_i hi
      split at hs
      · rename_i w hw
        obtain ⟨w', hw', rfl⟩ := Option.map_eq_some_iff.mp hs
        refine .observe h.textbook ((h.current w hw).step hw' fun v hv => ?_)
        have hr := rely_meanwhile hi hv
        exact ⟨hr, trivial, fun r hF => VisitAt.rely hF hr, id⟩
      · obtain ⟨sh, hsh, rfl⟩ := Option.map_eq_some_iff.mp hs
        have hkept : sh.circuit = s.sh.circuit := by
          cases i <;> cases hsh <;> rfl
        refine ⟨?_, fun w hw => ?_⟩
        · rw [hkept]
          exact h.textbook
        · rename_i hnone
          exact nomatch hnone.symm.trans hw
    · cases hs

/-- Searches that do not overlap find the textbook breaker, for every threshold
and cooldown. -/
theorem textbook_breaker (settings : Settings) (platform : Platform) (honest : Bool)
    (hs : Reachable (step settings platform honest) .initial s) :
    Textbook settings s.visits s.sh.circuit :=
  (hs.invariant (P := Inv settings honest) .initial fun _ _ _ h hstep => h.step hstep).textbook

/-! ## A sample run -/

/-- A search is called and the provider answers. -/
def visited (r : Except JsError Json) : List Event :=
  [.call Breaker.sampleOptions (fun _ => 0) false] ++
    List.replicate 4 (.incident (.resume fun
      | .axiosGet _ => some r
      | .tick => some ()
      | _ => none))

/-- The circuit opens, and after its cooldown a probe closes it. -/
def recovery : List Event :=
  visited Breaker.rateLimited ++ [.incident (.elapse 30000)] ++ visited Breaker.noArticles

theorem textbook_breaker_recovery :
    ∃ s, run (step Breaker.lowThreshold .plain false) .initial recovery = some s ∧
      breakerAfter Breaker.lowThreshold (s.visits.drop 1) = .opened 0 ∧
      breakerAfter Breaker.lowThreshold s.visits = .closed 0 ∧
      Textbook Breaker.lowThreshold s.visits s.sh.circuit := by
  refine ⟨_, rfl, rfl, rfl, ?_⟩
  exact textbook_breaker Breaker.lowThreshold .plain false ⟨recovery, rfl⟩

end NewsApi.Providers.Sequential
