import NewsApi.Providers.Textbook
import NewsApi.Providers.Verdict

/-! # One search that nobody overlaps

What a search does to the circuit from its call to its end when no other
search touches it, by what its log says of how it came out. -/
namespace NewsApi.Providers
open NewsApi.Async NewsApi.Types NewsApi.Config NewsApi.Errors NewsApi.Patterns NewsApi.Runtime

/-! ## What the log says -/

/-- When the search came to the circuit check. -/
def checkTime : Log → Option Nat
  | [] => none
  | .did .assertCircuitAllowsRequest _ v _ :: _ => some v.sh.clock
  | _ :: older => checkTime older

def isAttempt : Act Command Reply View → Bool
  | .sent (.axiosGet _) _ => true
  | _ => false

/-- What the provider answered last. -/
def lastAnswer : Log → Option (Except JsError Json)
  | [] => none
  | .answered (.axiosGet _) r _ :: _ => some r
  | _ :: older => lastAnswer older

/-- How the search came out, and when: a cancellation comes before the total
deadline, and both before what the provider answered. -/
def outcomeOf (log : Log) : Option (Outcome × Nat) :=
  (classified log).bind fun v =>
    (if cancelled v then some .cancelled
      else if v.lo.deadline then some .transient
      else (lastAnswer log).map answerOutcome).map fun outcome => (outcome, v.sh.clock)

/-- What a search did, `circuit` being what it found. -/
inductive Visit (settings : Settings) (circuit : CircuitState) (log : Log)
    (circuit' : CircuitState) : Except JsError ArticleList → Prop
  /-- cancelled before its check -/
  | leftOut (checked : checkTime log = none) (attempts : log.any isAttempt = false)
      (kept : circuit' = circuit) :
      Visit settings circuit log circuit' (.error .requestAborted)
  | rejected {start : Nat} {error : JsError} (checked : checkTime log = some start)
      (attempts : log.any isAttempt = false)
      (check : assertCircuitAllowsRequest settings start circuit = (.error error, circuit')) :
      Visit settings circuit log circuit' (.error error)
  | admitted {start finish : Nat} {circuitState : CircuitRequestState} {found : CircuitState}
      {outcome : Outcome} {result : Except JsError ArticleList}
      (checked : checkTime log = some start)
      (check : assertCircuitAllowsRequest settings start circuit = (.ok circuitState, found))
      (cameOut : outcomeOf log = some (outcome, finish))
      (left : circuit' = settled settings circuitState outcome finish found) :
      Visit settings circuit log circuit' result

/-! ## Phases -/

/-- Nobody else touches the circuit, and an aborted signal stays aborted. -/
def visitContract : Contract Scene where
  inv _ := True
  rely t t' := t'.log = t.log ∧ t'.state.sh.circuit = t.state.sh.circuit ∧
    (t.state.aborted .request = true → t'.state.aborted .request = true)
  atLoop _ := True
  rely_refl _ := ⟨rfl, rfl, id⟩
  rely_trans h h' := ⟨h'.1.trans h.1, h'.2.1.trans h.2.1, h'.2.2 ∘ h.2.2⟩

variable {settings : Settings} {circuit found : CircuitState} {circuitState : CircuitRequestState}
  {outcome : Outcome} {finish : Nat} {a : Act Command Reply View} {log : Log}

/-- Admitted, and its outcome is open; `found` is what the check made of the
circuit. -/
structure Upstream (settings : Settings) (circuit : CircuitState)
    (circuitState : CircuitRequestState) (found : CircuitState) (log : Log) : Prop where
  check : ∃ start, checkTime log = some start ∧
    assertCircuitAllowsRequest settings start circuit = (.ok circuitState, found)
  classified : classified log = none

/-- Its outcome is classified, and the circuit is as it was. -/
structure Ready (settings : Settings) (circuit : CircuitState)
    (circuitState : CircuitRequestState) (outcome : Outcome) (finish : Nat) (found : CircuitState)
    (log : Log) : Prop where
  check : ∃ start, checkTime log = some start ∧
    assertCircuitAllowsRequest settings start circuit = (.ok circuitState, found)
  cameOut : outcomeOf log = some (outcome, finish)

/-- It has done what it does to the circuit. -/
def Decided (settings : Settings) (circuit circuit' : CircuitState) (log : Log) : Prop :=
  ∃ circuitState outcome finish found,
    Ready settings circuit circuitState outcome finish found log ∧
      circuit' = settled settings circuitState outcome finish found

theorem outcomeOf_cons (h : outcomeOf log = some (outcome, finish))
    (ha : lastAnswer (a :: log) = lastAnswer log) :
    outcomeOf (a :: log) = some (outcome, finish) := by
  obtain ⟨v, hv, -⟩ := Option.bind_eq_some_iff.mp h
  rw [← h, outcomeOf, outcomeOf, ha, hv, classified_cons_some hv]

theorem Upstream.cons (h : Upstream settings circuit circuitState found log)
    (ht : checkTime (a :: log) = checkTime log) (hc : classifies a = none) :
    Upstream settings circuit circuitState found (a :: log) :=
  ⟨by rw [ht]; exact h.check, classified_cons_none h.classified hc⟩

theorem Ready.cons (h : Ready settings circuit circuitState outcome finish found log)
    (ht : checkTime (a :: log) = checkTime log) (ha : lastAnswer (a :: log) = lastAnswer log) :
    Ready settings circuit circuitState outcome finish found (a :: log) :=
  ⟨by rw [ht]; exact h.check, outcomeOf_cons h.cameOut ha⟩

theorem Ready.decided (h : Ready settings circuit circuitState outcome finish found log) :
    Decided settings circuit (settled settings circuitState outcome finish found) log :=
  ⟨circuitState, outcome, finish, found, h, rfl⟩

theorem Decided.cons {circuit' : CircuitState} (h : Decided settings circuit circuit' log)
    (ht : checkTime (a :: log) = checkTime log) (ha : lastAnswer (a :: log) = lastAnswer log) :
    Decided settings circuit circuit' (a :: log) := by
  obtain ⟨circuitState, outcome, finish, found, hr, hl⟩ := h
  exact ⟨circuitState, outcome, finish, found, hr.cons ht ha, hl⟩

theorem Decided.visit {circuit' : CircuitState} {result : Except JsError ArticleList}
    (h : Decided settings circuit circuit' log) : Visit settings circuit log circuit' result := by
  obtain ⟨circuitState, outcome, finish, found, ⟨⟨start, hs, hc⟩, ho⟩, hl⟩ := h
  exact .admitted hs hc ho hl

theorem Visit.cons {circuit' : CircuitState} {result : Except JsError ArticleList}
    (h : Visit settings circuit log circuit' result)
    (ht : checkTime (a :: log) = checkTime log) (ha : lastAnswer (a :: log) = lastAnswer log)
    (hi : isAttempt a = false) : Visit settings circuit (a :: log) circuit' result := by
  cases h with
  | leftOut hs hn hk => exact .leftOut (ht.trans hs) (by simp [hi, hn]) hk
  | rejected hs hn hc => exact .rejected (ht.trans hs) (by simp [hi, hn]) hc
  | admitted hs hc ho hl => exact .admitted (ht.trans hs) hc (outcomeOf_cons ho ha) hl

end NewsApi.Providers
