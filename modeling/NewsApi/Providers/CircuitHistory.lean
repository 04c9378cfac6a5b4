import NewsApi.Runtime.JobHost

/-! # Histories of the circuit

What searches did to the circuit, newest first, and what follows from the
record alone: the circuit's state, which searches are unsettled probes, and
which checks were rejected. Nothing here mentions a running program. -/
namespace NewsApi.Providers
open NewsApi.Config NewsApi.Errors NewsApi.Runtime

abbrev History := List CircuitEvent

/-! ## The circuit from its history -/

def effect (settings : Settings) (e : CircuitEvent) (circuit : CircuitState) : CircuitState :=
  match e.op with
  | .check _ => (assertCircuitAllowsRequest settings e.time circuit).2
  | .close => closeCircuit circuit
  | .failure => recordProviderFailure settings e.time circuit
  | .cancel circuitState => recordCanceledProbe circuitState e.time circuit

def replay (settings : Settings) : History → CircuitState
  | [] => .initial
  | e :: older => effect settings e (replay settings older)

/-! ## One search's part -/

/-- What a search has done to the circuit, newest first. -/
def opsOf (h : History) (id : Nat) : List CircuitOp :=
  (h.filter (·.search == id)).map (·.op)

theorem opsOf_cons_self (e : CircuitEvent) (h : History) :
    opsOf (e :: h) e.search = e.op :: opsOf h e.search := by
  simp [opsOf]

theorem opsOf_cons_ne {e : CircuitEvent} {id : Nat} (h : History) (hne : e.search ≠ id) :
    opsOf (e :: h) id = opsOf h id := by
  simp [opsOf, hne]

theorem opsOf_suffix {h h' : History} (hs : h <:+ h') (id : Nat) : opsOf h id <:+ opsOf h' id := by
  obtain ⟨newer, rfl⟩ := hs
  simp [opsOf]

/-- A search checks the circuit at most once, and settles with it at most once,
after it was admitted. -/
inductive Legal : List CircuitOp → Prop
  | fresh : Legal []
  | checked (r : Except JsError CircuitRequestState) : Legal [.check r]
  | closed (st : CircuitRequestState) : Legal [.close, .check (.ok st)]
  | failed (st : CircuitRequestState) : Legal [.failure, .check (.ok st)]
  | canceled (st : CircuitRequestState) : Legal [.cancel st, .check (.ok st)]

theorem Legal.suffix {l l' : List CircuitOp} (h : Legal l') (hs : l <:+ l') : Legal l := by
  have two : ∀ {a r}, l <:+ [a, .check r] → Legal [a, .check r] → Legal l := by
    intro a r hs h
    rcases List.suffix_cons_iff.mp hs with rfl | hs
    · exact h
    · rcases List.suffix_cons_iff.mp hs with rfl | hs
      · exact .checked r
      · exact List.suffix_nil.mp hs ▸ .fresh
  cases h with
  | fresh => exact List.suffix_nil.mp hs ▸ .fresh
  | checked r =>
    rcases List.suffix_cons_iff.mp hs with rfl | hs
    · exact .checked r
    · exact List.suffix_nil.mp hs ▸ .fresh
  | closed st => exact two hs (.closed st)
  | failed st => exact two hs (.failed st)
  | canceled st => exact two hs (.canceled st)

/-- Admitted as the recovery probe and not settled with the circuit yet. -/
def isProbe (h : History) (id : Nat) : Bool :=
  match opsOf h id with
  | [.check (.ok .halfOpen)] => true
  | _ => false

/-- Admitted while the circuit was closed and not settled with it yet. -/
def isOrdinary (h : History) (id : Nat) : Bool :=
  match opsOf h id with
  | [.check (.ok .closed)] => true
  | _ => false

/-- A check answered with `upstream_circuit_open`. -/
def Rejected (r : Except JsError CircuitRequestState) : Prop :=
  ∃ error : HttpError, r = .error (.http error) ∧ error.statusCode = 503 ∧
    error.code = "upstream_circuit_open"

theorem isProbe_iff {h : History} {id : Nat} :
    isProbe h id = true ↔ opsOf h id = [.check (.ok .halfOpen)] := by
  unfold isProbe
  split <;> simp_all

theorem isOrdinary_iff {h : History} {id : Nat} :
    isOrdinary h id = true ↔ opsOf h id = [.check (.ok .closed)] := by
  unfold isOrdinary
  split <;> simp_all

theorem isProbe_cons_ne {e : CircuitEvent} {id : Nat} (h : History) (hne : e.search ≠ id) :
    isProbe (e :: h) id = isProbe h id := by
  simp [isProbe, opsOf_cons_ne h hne]

theorem rejected_of_assert {settings : Settings} {time : Nat} {circuit : CircuitState}
    {r : Except JsError CircuitRequestState}
    (hr : (assertCircuitAllowsRequest settings time circuit).1 = r)
    (hopen : circuit.halfOpenInFlight = true ∧ circuit.openedAt = none ∨
      ∃ t, circuit.openedAt = some t ∧ time < t + settings.cooldownMs) : Rejected r := by
  refine ⟨{
    statusCode := 503
    message := "Upstream news service temporarily unavailable"
    code := "upstream_circuit_open"
    retryAfter := some (circuitRetryAfter settings circuit time) }, ?_, rfl, rfl⟩
  rw [← hr]
  unfold assertCircuitAllowsRequest
  rcases hopen with ⟨hf, ho⟩ | ⟨t, ho, ht⟩
  · simp [ho, hf, circuitOpenError]
  · simp [ho, ht, circuitOpenError]

/-- The history of legal searches whose checks returned what they found. -/
structure Recorded (settings : Settings) (h : History) : Prop where
  legal : ∀ id, Legal (opsOf h id)
  checks : ∀ e older r, e :: older <:+ h → e.op = .check r →
    (assertCircuitAllowsRequest settings e.time (replay settings older)).1 = r
  times : ∀ e older, e :: older <:+ h → ∀ e' ∈ older, e'.time ≤ e.time

theorem Recorded.suffix {settings : Settings} {h h' : History} (hr : Recorded settings h')
    (hs : h <:+ h') : Recorded settings h where
  legal id := (hr.legal id).suffix (opsOf_suffix hs id)
  checks e older r he := hr.checks e older r (he.trans hs)
  times e older he := hr.times e older (he.trans hs)

/-- The history explains the shared state: the circuit is what the events made
of it, every check returned what it then found, and time went forward. -/
structure Consistent (settings : Settings) (sh : Shared) : Prop where
  circuit : replay settings sh.history = sh.circuit
  checks : ∀ e older r, e :: older <:+ sh.history → e.op = .check r →
    (assertCircuitAllowsRequest settings e.time (replay settings older)).1 = r
  times : ∀ e older, e :: older <:+ sh.history → ∀ e' ∈ older, e'.time ≤ e.time
  clock : ∀ e ∈ sh.history, e.time ≤ sh.clock

theorem Consistent.recorded {settings : Settings} {sh : Shared} (h : Consistent settings sh)
    (hl : ∀ id, Legal (opsOf sh.history id)) : Recorded settings sh.history :=
  ⟨hl, h.checks, h.times⟩

theorem Consistent.initial (settings : Settings) : Consistent settings .initial where
  circuit := rfl
  checks e older _ h := absurd (List.suffix_nil.mp h) (List.cons_ne_nil e older)
  times e older h := absurd (List.suffix_nil.mp h) (List.cons_ne_nil e older)
  clock _ h := nomatch h

theorem Consistent.circuitStep {settings : Settings} {v : View} {op : CircuitOp}
    {circuit : CircuitState} (h : Consistent settings v.sh)
    (hc : effect settings ⟨v.lo.id, v.sh.clock, op⟩ v.sh.circuit = circuit)
    (hr : ∀ r, op = .check r →
      (assertCircuitAllowsRequest settings v.sh.clock v.sh.circuit).1 = r) :
    Consistent settings (v.circuitStep op circuit).sh where
  circuit := by
    show effect settings _ (replay settings v.sh.history) = _
    rw [h.circuit]; exact hc
  checks e older r he hop := by
    rcases List.suffix_cons_iff.mp he with heq | he
    · cases heq
      rw [h.circuit]
      exact hr r hop
    · exact h.checks e older r he hop
  times e older he e' hmem := by
    rcases List.suffix_cons_iff.mp he with heq | he
    · cases heq
      exact h.clock e' hmem
    · exact h.times e older he e' hmem
  clock e he := by
    rcases List.mem_cons.mp he with rfl | he
    · exact Nat.le_refl _
    · exact h.clock e he

theorem Consistent.now {settings : Settings} {v v' : View} {c : Command} {r : Reply c}
    (h : Consistent settings v.sh) (hn : Runtime.now settings c v = some (r, v')) :
    Consistent settings v'.sh := by
  cases c with
  | assertCircuitAllowsRequest =>
    cases hn
    exact h.circuitStep rfl fun r hr => CircuitOp.check.inj hr
  | closeCircuit => cases hn; exact h.circuitStep rfl fun r hr => nomatch hr
  | recordProviderFailure => cases hn; exact h.circuitStep rfl fun r hr => nomatch hr
  | recordCanceledProbe st => cases hn; exact h.circuitStep rfl fun r hr => nomatch hr
  | _ => rwa [now_leavesCircuit hn trivial]

/-- A search adds to the history under its own name only. -/
theorem now_others {settings : Settings} {v v' : View} {c : Command} {r : Reply c} {id : Nat}
    (hn : now settings c v = some (r, v')) (hid : id ≠ v.lo.id) :
    opsOf v'.sh.history id = opsOf v.sh.history id := by
  cases c with
  | assertCircuitAllowsRequest | closeCircuit | recordProviderFailure | recordCanceledProbe st =>
    cases hn
    exact opsOf_cons_ne v.sh.history (Ne.symm hid)
  | _ => rw [now_leavesCircuit hn trivial]

/-- What a search had done before an event of its own. -/
theorem Recorded.before {settings : Settings} {e : CircuitEvent} {older : History}
    (hr : Recorded settings (e :: older)) :
    (∃ r, e.op = .check r ∧ opsOf older e.search = []) ∨
    ∃ st, opsOf older e.search = [.check (.ok st)] ∧
      (e.op = .close ∨ e.op = .failure ∨ e.op = .cancel st) := by
  have := hr.legal e.search
  rw [opsOf_cons_self] at this
  generalize opsOf older e.search = l at this ⊢
  generalize e.op = op at this ⊢
  cases this with
  | checked r => exact .inl ⟨r, rfl, rfl⟩
  | closed st => exact .inr ⟨st, rfl, .inl rfl⟩
  | failed st => exact .inr ⟨st, rfl, .inr (.inl rfl)⟩
  | canceled st => exact .inr ⟨st, rfl, .inr (.inr rfl)⟩

/-! ## Half-open exclusivity -/

/-- No search that was admitted while the circuit was closed settles, by
success or by a counted failure, while a probe is unsettled. -/
def NoLateSettlement (h : History) : Prop :=
  ∀ e older, e :: older <:+ h → e.op = .close ∨ e.op = .failure →
    isOrdinary older e.search = true → ∀ id, isProbe older id = false

/-- While a probe is unsettled it is the only one, and the circuit rejects. -/
def Exclusive (settings : Settings) (h : History) : Prop :=
  ∀ id, isProbe h id = true →
    (replay settings h).halfOpenInFlight = true ∧ (replay settings h).openedAt = none ∧
    ∀ id', isProbe h id' = true → id' = id

theorem isProbe_of_cons {e : CircuitEvent} {older : History} {id : Nat}
    (hp : isProbe (e :: older) id = true) :
    (e.search = id ∧ e.op = .check (.ok .halfOpen) ∧ opsOf older id = []) ∨
      (e.search ≠ id ∧ isProbe older id = true) := by
  by_cases hid : e.search = id
  · subst hid
    rw [isProbe_iff, opsOf_cons_self, List.cons.injEq] at hp
    exact .inl ⟨rfl, hp⟩
  · rw [isProbe_cons_ne older hid] at hp
    exact .inr ⟨hid, hp⟩

/-- A search that settles leaves no probe behind, if no other search is one. -/
theorem exclusive_settle {settings : Settings} {e : CircuitEvent} {older : History}
    (hc : ∀ r, e.op ≠ .check r) (hothers : ∀ id, e.search ≠ id → isProbe older id = false) :
    Exclusive settings (e :: older) := by
  intro id hp
  rcases isProbe_of_cons hp with ⟨-, hop, -⟩ | ⟨hne, hp⟩
  · exact absurd hop (hc _)
  · rw [hothers id hne] at hp; cases hp

theorem exclusive_check {settings : Settings} {e : CircuitEvent} {older : History}
    {r : Except JsError CircuitRequestState} (ih : Exclusive settings older)
    (hop : e.op = .check r)
    (hcheck : (assertCircuitAllowsRequest settings e.time (replay settings older)).1 = r) :
    Exclusive settings (e :: older) := by
  have heff : replay settings (e :: older) =
      (assertCircuitAllowsRequest settings e.time (replay settings older)).2 := by
    simp [replay, effect, hop]
  have hpair : assertCircuitAllowsRequest settings e.time (replay settings older) =
      (r, replay settings (e :: older)) := Prod.ext hcheck heff.symm
  intro id hp
  rcases isProbe_of_cons hp with ⟨rfl, hopen, hnone⟩ | ⟨hne, hpo⟩
  · -- the new probe: the circuit was open, so there was no probe before
    have hr : r = .ok .halfOpen := by rw [hop] at hopen; exact CircuitOp.check.inj hopen
    subst hr
    obtain ⟨⟨t, ht, -⟩, hc⟩ := assert_halfOpen hpair
    refine ⟨by rw [hc], by rw [hc], fun id' hp' => ?_⟩
    rcases isProbe_of_cons hp' with ⟨rfl, -, -⟩ | ⟨-, hpo⟩
    · rfl
    · rw [(ih id' hpo).2.1] at ht; cases ht
  · obtain ⟨hf, ho, huniq⟩ := ih id hpo
    cases r with
    | error error =>
      obtain ⟨hc, -⟩ := assert_error hpair
      refine ⟨by rw [hc, hf], by rw [hc, ho], fun id' hp' => ?_⟩
      rcases isProbe_of_cons hp' with ⟨-, hopen, -⟩ | ⟨-, hpo'⟩
      · rw [hop] at hopen; cases hopen
      · exact huniq id' hpo'
    | ok st =>
      cases st with
      | closed => rw [(assert_closed hpair).2.1] at hf; cases hf
      | halfOpen =>
        obtain ⟨⟨t, ht, -⟩, -⟩ := assert_halfOpen hpair
        rw [ho] at ht; cases ht

theorem exclusive_of_noLateSettlement {settings : Settings} {h : History}
    (hr : Recorded settings h) (hu : NoLateSettlement h) : Exclusive settings h := by
  induction h with
  | nil => intro id hp; cases hp
  | cons e older ih =>
    have hsuf : older <:+ e :: older := List.suffix_cons e older
    have ihe := ih (hr.suffix hsuf) fun e' o' he => hu e' o' (he.trans hsuf)
    rcases hr.before with ⟨r, hop, -⟩ | ⟨st, hops, hop⟩
    · exact exclusive_check ihe hop (hr.checks e older r (List.suffix_refl _) hop)
    · have hne : ∀ r, e.op ≠ .check r := by
        rintro r he
        rw [he] at hop
        simp at hop
      cases st with
      | halfOpen =>
        -- the probe itself settles, and it was the only one
        refine exclusive_settle hne fun id hid => ?_
        rw [Bool.eq_false_iff]
        intro hp
        exact hid ((ihe id hp).2.2 _ (isProbe_iff.mpr hops))
      | closed =>
        rcases hop with hop | hop | hop
        · exact exclusive_settle hne fun id _ => hu e older (List.suffix_refl _) (.inl hop)
            (isOrdinary_iff.mpr hops) id
        · exact exclusive_settle hne fun id _ => hu e older (List.suffix_refl _) (.inr hop)
            (isOrdinary_iff.mpr hops) id
        · -- a cancelled ordinary search does not touch the circuit
          have heff : replay settings (e :: older) = replay settings older := by
            simp [replay, effect, hop, recordCanceledProbe]
          intro id hp
          rcases isProbe_of_cons hp with ⟨-, he, -⟩ | ⟨-, hpo⟩
          · exact absurd he (hne _)
          · obtain ⟨hf, ho, huniq⟩ := ihe id hpo
            refine ⟨by rw [heff, hf], by rw [heff, ho], fun id' hp' => ?_⟩
            rcases isProbe_of_cons hp' with ⟨-, he, -⟩ | ⟨-, hpo'⟩
            · exact absurd he (hne _)
            · exact huniq id' hpo'

/-! ## Cooldowns -/

/-- The event opens the circuit: the failure threshold is reached, or a probe
is cancelled. -/
def Opens (settings : Settings) (e : CircuitEvent) (older : History) : Prop :=
  (e.op = .failure ∧ (replay settings older).openedAt = none ∧
    settings.failureThreshold ≤ (replay settings older).failures + 1) ∨
  e.op = .cancel .halfOpen

/-- No search closes the circuit while it is open and its cooldown is running. -/
def NoEarlyClose (settings : Settings) (h : History) : Prop :=
  ∀ e older t, e :: older <:+ h → e.op = .close → (replay settings older).openedAt = some t →
    t + settings.cooldownMs ≤ e.time

theorem Opens.openedAt {settings : Settings} {e : CircuitEvent} {older : History}
    (ho : Opens settings e older) : (replay settings (e :: older)).openedAt = some e.time := by
  rcases ho with ⟨hop, hnone, hth⟩ | hop
  · simp [replay, effect, hop, recordProviderFailure, hnone, hth]
  · simp [replay, effect, hop, recordCanceledProbe]

theorem stays_open {settings : Settings} {e : CircuitEvent} {older h : History} {time : Nat}
    (ho : Opens settings e older) (hs : e :: older <:+ h) (hr : Recorded settings h)
    (hc : NoEarlyClose settings h) (htime : ∀ e' ∈ h, e'.time ≤ time)
    (hlt : time < e.time + settings.cooldownMs) :
    ∃ t, (replay settings h).openedAt = some t ∧ e.time ≤ t := by
  induction h generalizing time with
  | nil => exact absurd (List.suffix_nil.mp hs) (List.cons_ne_nil e older)
  | cons e' h ih =>
    rcases List.suffix_cons_iff.mp hs with heq | hs'
    · rw [← heq]
      exact ⟨e.time, ho.openedAt, Nat.le_refl _⟩
    · have hsuf : h <:+ e' :: h := List.suffix_cons e' h
      have hle : e'.time ≤ time := htime e' List.mem_cons_self
      obtain ⟨t, ht, het⟩ := ih hs' (hr.suffix hsuf)
        (fun e'' o'' t he => hc e'' o'' t (he.trans hsuf))
        (hr.times e' h (List.suffix_refl _)) (by omega)
      have hee' : e.time ≤ e'.time :=
        hr.times e' h (List.suffix_refl _) e (hs'.subset List.mem_cons_self)
      cases hop : e'.op with
      | check r =>
        have hlt' : e'.time < t + settings.cooldownMs := by omega
        exact ⟨t, by simp [replay, effect, hop, assertCircuitAllowsRequest, ht, hlt'], het⟩
      | close =>
        have := hc e' h t (List.suffix_refl _) hop ht
        omega
      | failure => exact ⟨t, by simp [replay, effect, hop, recordProviderFailure, ht], het⟩
      | cancel st =>
        cases st with
        | closed => exact ⟨t, by simp [replay, effect, hop, recordCanceledProbe, ht], het⟩
        | halfOpen => exact ⟨e'.time, by simp [replay, effect, hop, recordCanceledProbe], hee'⟩

end NewsApi.Providers
