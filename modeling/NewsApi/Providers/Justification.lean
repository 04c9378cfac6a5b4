import NewsApi.Providers.Recovery

/-! # What keeps the circuit open

The circuit is open, or probed, because failures were counted since it was last
closed. A probe that settles after others have closed the circuit breaks this:
its cancellation opens the circuit for no failure, and its own failure may
leave it closed. -/
namespace NewsApi.Providers
open NewsApi.Config NewsApi.Errors NewsApi.Runtime

/-- Failures counted since the circuit was last closed. -/
def failuresSinceClose : History → Nat
  | [] => 0
  | e :: older =>
    match e.op with
    | .close => 0
    | .failure => failuresSinceClose older + 1
    | _ => failuresSinceClose older

def CircuitState.IsClosed (circuit : CircuitState) : Prop :=
  circuit.openedAt = none ∧ circuit.halfOpenInFlight = false

/-- The circuit was closed after the search had been admitted. -/
def ClosedSince (h : History) (id : Nat) : Prop :=
  ∃ newer admission rest, h = newer ++ admission :: rest ∧ admission.search = id ∧
    ∃ c ∈ newer, c.op = .close

/-- A probe that settles by cancellation or failure after the circuit was
closed finds enough failures counted again. -/
def NoOutlivedProbe (settings : Settings) (h : History) : Prop :=
  ∀ e older, e :: older <:+ h → isProbe older e.search = true → ClosedSince older e.search →
    (e.op = .cancel .halfOpen → settings.failureThreshold ≤ failuresSinceClose older) ∧
    (e.op = .failure → settings.failureThreshold ≤ failuresSinceClose older + 1)

variable {settings : Settings} {e : CircuitEvent} {h older : History} {id : Nat}

theorem effect_check_failures {circuit : CircuitState} :
    (assertCircuitAllowsRequest settings e.time circuit).2.failures = circuit.failures := by
  unfold assertCircuitAllowsRequest
  split <;> split <;> rfl

theorem replay_failures (settings : Settings) (h : History) :
    (replay settings h).failures = failuresSinceClose h := by
  induction h with
  | nil => rfl
  | cons e older ih =>
    cases hop : e.op with
    | check r => simp [replay, effect, failuresSinceClose, hop, effect_check_failures, ih]
    | close => simp [replay, effect, failuresSinceClose, hop, closeCircuit]
    | failure => simp [replay, effect, failuresSinceClose, hop, recordProviderFailure, ih]
    | cancel st =>
      cases st <;> simp [replay, effect, failuresSinceClose, hop, recordCanceledProbe, ih]

/-- A closed circuit has counted too few failures to open. -/
theorem closed_failures (hc : (replay settings h).IsClosed) :
    failuresSinceClose h < settings.failureThreshold := by
  rw [← replay_failures settings h]
  induction h with
  | nil => exact settings.failureThreshold_pos
  | cons e older ih =>
    obtain ⟨ho, hf⟩ := hc
    cases hop : e.op with
    | check r =>
      simp only [replay, effect, hop] at ho hf ⊢
      rw [effect_check_failures]
      unfold assertCircuitAllowsRequest at ho hf
      split at ho
      · rename_i hnone
        rw [hnone] at hf
        simp only [apply_ite, ite_self] at hf
        exact ih ⟨hnone, hf⟩
      · rename_i t ht
        rw [ht] at hf
        split at ho
        · cases ht.symm.trans ho
        · rename_i hlate
          simp [hlate] at hf
    | close => simpa [replay, effect, hop, closeCircuit] using settings.failureThreshold_pos
    | failure =>
      simp only [replay, effect, hop, recordProviderFailure] at ho ⊢
      split at ho
      · cases ho
      · rename_i hnot
        exact Nat.not_le.mp fun hle => hnot ⟨hle, ho⟩
    | cancel st =>
      cases st with
      | closed =>
        simp only [replay, effect, hop, recordCanceledProbe] at ho hf ⊢
        exact ih ⟨ho, hf⟩
      | halfOpen => simp [replay, effect, hop, recordCanceledProbe] at ho

theorem failures_mono {newer : History} (hn : ∀ c ∈ newer, c.op ≠ .close) :
    failuresSinceClose h ≤ failuresSinceClose (newer ++ h) := by
  induction newer with
  | nil => exact Nat.le_refl _
  | cons c newer ih =>
    have iht := ih fun c' hc' => hn c' (List.mem_cons_of_mem c hc')
    have hc := hn c List.mem_cons_self
    simp only [List.cons_append, failuresSinceClose]
    split
    · rename_i hop
      exact absurd hop hc
    · omega
    · exact iht

/-- Since it was admitted, a probe has had the failures that had opened the
circuit, unless the circuit was closed meanwhile. -/
theorem probe_failures (hr : Recorded settings older) (hp : isProbe older id = true)
    (hopen : ∀ rest t, rest <:+ older → (replay settings rest).openedAt = some t →
      settings.failureThreshold ≤ failuresSinceClose rest)
    (hc : ¬ClosedSince older id) : settings.failureThreshold ≤ failuresSinceClose older := by
  have hmem : CircuitOp.check (.ok .halfOpen) ∈ opsOf older id :=
    isProbe_iff.mp hp ▸ List.mem_singleton_self _
  obtain ⟨a, ha, hop⟩ := List.mem_map.mp hmem
  obtain ⟨ha, hid⟩ := List.mem_filter.mp ha
  obtain ⟨newer, rest, rfl⟩ := List.append_of_mem ha
  have hsuf : a :: rest <:+ newer ++ a :: rest := List.suffix_append _ _
  have hpair : assertCircuitAllowsRequest settings a.time (replay settings rest) =
      (.ok .halfOpen, replay settings (a :: rest)) := by
    refine Prod.ext (hr.checks a rest _ hsuf hop) ?_
    simp [replay, effect, hop]
  obtain ⟨⟨t, ht, -⟩, -⟩ := assert_halfOpen hpair
  have hrest := hopen rest t ((List.suffix_cons a rest).trans hsuf) ht
  have hadmission : failuresSinceClose (a :: rest) = failuresSinceClose rest := by
    simp [failuresSinceClose, hop]
  have hmono : failuresSinceClose (a :: rest) ≤ failuresSinceClose (newer ++ a :: rest) := by
    refine failures_mono fun c hcn hclose => hc ?_
    exact ⟨newer, a, rest, rfl, by simpa using hid, c, hcn, hclose⟩
  omega

/-- Enough failures were counted since the last close wherever the circuit is
not closed. -/
theorem open_failures (hr : Recorded settings h) (hn : NoOutlivedProbe settings h)
    (hopen : ¬(replay settings h).IsClosed) :
    settings.failureThreshold ≤ failuresSinceClose h := by
  -- the induction needs the fact for all that went before
  suffices hall : ∀ h' : History, h' <:+ h → ¬(replay settings h').IsClosed →
      settings.failureThreshold ≤ failuresSinceClose h' from hall h (List.suffix_refl h) hopen
  clear hopen
  induction h with
  | nil =>
    intro h' hs hopen
    rw [List.suffix_nil.mp hs] at hopen
    exact absurd ⟨rfl, rfl⟩ hopen
  | cons e older ih =>
    have hsuf : older <:+ e :: older := List.suffix_cons e older
    have iho := ih (hr.suffix hsuf) fun e' o' he => hn e' o' (he.trans hsuf)
    have hlast := iho older (List.suffix_refl _)
    have hsome : ∀ (rest : History) t, rest <:+ older →
        (replay settings rest).openedAt = some t →
        settings.failureThreshold ≤ failuresSinceClose rest := fun rest t hs ht =>
      iho rest hs fun hc => nomatch ht.symm.trans hc.1
    intro h' hs hopen
    rcases List.suffix_cons_iff.mp hs with rfl | hs
    swap
    · exact iho h' hs hopen
    rcases hr.before with ⟨r, hop, -⟩ | ⟨st, hops, hop⟩
    · have hcount : failuresSinceClose (e :: older) = failuresSinceClose older := by
        simp [failuresSinceClose, hop]
      rw [hcount]
      refine hlast fun hc => hopen ?_
      have : (assertCircuitAllowsRequest settings e.time (replay settings older)).2 =
          replay settings older := by
        simp [assertCircuitAllowsRequest, hc.1, hc.2]
      simpa only [replay, effect, hop, this] using hc
    · rcases hop with hop | hop | hop
      · exact absurd (by simp [replay, effect, hop, closeCircuit, CircuitState.IsClosed]) hopen
      · have hcount : failuresSinceClose (e :: older) = failuresSinceClose older + 1 := by
          simp [failuresSinceClose, hop]
        rw [hcount]
        by_contra hlt
        refine hopen ⟨?_, by simp [replay, effect, hop, recordProviderFailure]⟩
        have hclosed : (replay settings older).openedAt = none := by
          cases ho : (replay settings older).openedAt with
          | none => rfl
          | some t => exact absurd (hsome older t (List.suffix_refl _) ho) (by omega)
        simp [replay, effect, hop, recordProviderFailure, hclosed, replay_failures, hlt]
      · have hcount : failuresSinceClose (e :: older) = failuresSinceClose older := by
          simp [failuresSinceClose, hop]
        rw [hcount]
        cases st with
        | closed =>
          refine hlast fun hc => hopen ?_
          simpa only [replay, effect, hop, recordCanceledProbe] using hc
        | halfOpen =>
          by_cases hc : ClosedSince older e.search
          · exact (hn e older (List.suffix_refl _) (isProbe_iff.mpr hops) hc).1 hop
          · exact probe_failures (hr.suffix hsuf) (isProbe_iff.mpr hops) hsome hc

end NewsApi.Providers

namespace NewsApi.Providers.Breaker
open NewsApi.Async NewsApi.Config NewsApi.Errors NewsApi.Runtime

variable {settings : Settings} {platform : Platform} {s : Searches}

/-- An open circuit is justified by failures: where it is open or probed, at
least the threshold of failures was counted since it was last closed; a
cancellation never opens a closed circuit; the failure of a probe leaves the
circuit open. -/
structure OpenJustified (settings : Settings) (s : Searches) : Prop where
  counted : s.sh.circuit.openedAt ≠ none ∨ s.sh.circuit.halfOpenInFlight = true →
    settings.failureThreshold ≤ failuresSinceClose s.sh.history
  canceled : ∀ e older st, e :: older <:+ s.sh.history → e.op = .cancel st →
    (replay settings older).IsClosed → (replay settings (e :: older)).IsClosed
  reopened : ∀ e older, e :: older <:+ s.sh.history → e.op = .failure →
    isProbe older e.search = true → (replay settings (e :: older)).openedAt ≠ none

/-- In every run in which no probe is cancelled or fails after the circuit was
closed behind its back, unless enough failures were counted again by then, an
open circuit is justified. -/
theorem open_justified (hs : Reachable (step settings platform) .initial s)
    (hn : NoOutlivedProbe settings s.sh.history) : OpenJustified settings s := by
  have hinv := inv_of_reachable hs
  have hrec := hinv.recorded
  have hopen : ∀ h' : History, h' <:+ s.sh.history → ¬(replay settings h').IsClosed →
      settings.failureThreshold ≤ failuresSinceClose h' := fun h' hsuf =>
    open_failures (hrec.suffix hsuf) fun e o he => hn e o (he.trans hsuf)
  have hprobe : ∀ e older, e :: older <:+ s.sh.history → isProbe older e.search = true →
      ¬ClosedSince older e.search → settings.failureThreshold ≤ failuresSinceClose older := by
    intro e older he hp hc
    have hsuf := (List.suffix_cons e older).trans he
    refine probe_failures (hrec.suffix hsuf) hp (fun rest t hr ht => ?_) hc
    refine hopen rest (hr.trans hsuf) fun hclosed => ?_
    cases ht.symm.trans hclosed.1
  refine ⟨fun h => ?_, ?_, ?_⟩
  · refine hopen _ (List.suffix_refl _) fun hc => ?_
    rw [hinv.consistent.circuit] at hc
    rcases h with h | h
    · exact h hc.1
    · cases h.symm.trans hc.2
  · intro e older st he hop hclosed
    cases st with
    | closed => simpa only [replay, effect, hop, recordCanceledProbe] using hclosed
    | halfOpen =>
      exfalso
      have hlt := closed_failures hclosed
      have hp : isProbe older e.search = true := by
        rcases (hrec.suffix he).before with ⟨r, hr, -⟩ | ⟨st, hops, hop'⟩
        · cases hop.symm.trans hr
        · rw [hop] at hop'
          obtain rfl : CircuitRequestState.halfOpen = st := by simpa using hop'
          exact isProbe_iff.mpr hops
      by_cases hc : ClosedSince older e.search
      · have := (hn e older he hp hc).1 hop
        omega
      · have := hprobe e older he hp hc
        omega
  · intro e older he hop hp
    have hle : settings.failureThreshold ≤ failuresSinceClose older + 1 := by
      by_cases hc : ClosedSince older e.search
      · exact (hn e older he hp hc).2 hop
      · have := hprobe e older he hp hc
        omega
    cases ho : (replay settings older).openedAt with
    | none => simp [replay, effect, hop, recordProviderFailure, ho, replay_failures, hle]
    | some t => simp [replay, effect, hop, recordProviderFailure, ho]

/-- The circuit opens while search 0 is under way, search 1 probes and fails. -/
def failedProbe : List Event :=
  sent 0 ++ [answered 0 rateLimited, .elapse 30000] ++ sent 1 ++ [answered 1 rateLimited]

theorem failedProbe_history :
    (run (step lowThreshold .plain) .initial failedProbe).map (fun s => s.sh.history) =
      some [⟨1, 30000, .failure⟩, ⟨1, 30000, .check (.ok .halfOpen)⟩, ⟨0, 0, .failure⟩,
        ⟨0, 0, .check (.ok .closed)⟩] := rfl

/-- The failed probe of the sample run has opened the circuit again. -/
theorem open_justified_failedProbe :
    ∃ s, run (step lowThreshold .plain) .initial failedProbe = some s ∧
      OpenJustified lowThreshold s := by
  obtain ⟨s, hs, hh⟩ := Option.map_eq_some_iff.mp failedProbe_history
  refine ⟨s, hs, open_justified ⟨_, hs⟩ ?_⟩
  rw [hh]
  intro e older he hp hc
  exfalso
  obtain ⟨newer, a, rest, rfl, -, c, hcn, hclose⟩ := hc
  have hmem := ((List.suffix_cons _ _).trans he).subset
    (List.mem_append_left (a :: rest) hcn)
  simp only [List.mem_cons, List.not_mem_nil, or_false] at hmem
  rcases hmem with rfl | rfl | rfl | rfl <;> cases hclose

/-- The circuit opens while search 0 is under way, search 2 probes, search 0
succeeds, and then search 2 is cancelled. -/
def outlivedProbe : List Event :=
  sent 0 ++ sent 1 ++ [answered 1 rateLimited, .elapse 30000] ++ sent 2 ++
    [answered 0 noArticles, .disconnect 2,
      answered 2 (.error (.axios ⟨some "ERR_CANCELED", none⟩))]

/-- The circuit is open though no failure was counted since it was closed. -/
theorem open_unjustified :
    ¬∀ s, Reachable (step lowThreshold .plain) .initial s → OpenJustified lowThreshold s := by
  intro h
  have hrun : (run (step lowThreshold .plain) .initial outlivedProbe).map (fun s =>
      (s.sh.circuit.openedAt, failuresSinceClose s.sh.history)) = some (some 30000, 0) := rfl
  obtain ⟨s, hs, hh⟩ := Option.map_eq_some_iff.mp hrun
  obtain ⟨hopened, hcount⟩ := Prod.mk.inj hh
  have := (h s ⟨_, hs⟩).counted (.inl (by rw [hopened]; exact nofun))
  rw [hcount] at this
  exact absurd this (by decide)

end NewsApi.Providers.Breaker
