import NewsApi.Providers.Breaker

/-! # The breaker recovers

The probe's slot is taken only while a probe is under way, and never while the
circuit is open. So once all searches have settled the circuit is closed, or
open for a cooldown whose end admits the next search. -/
namespace NewsApi.Providers
open NewsApi.Config NewsApi.Errors NewsApi.Runtime

variable {settings : Settings} {e : CircuitEvent} {h older : History} {id : Nat}

/-! ## The slot -/

/-- The slot is not taken while the circuit is open. -/
def CircuitState.Apart (circuit : CircuitState) : Prop :=
  circuit.halfOpenInFlight = true → circuit.openedAt = none

theorem effect_apart {circuit : CircuitState} (h : circuit.Apart) :
    (effect settings e circuit).Apart := by
  unfold effect
  split
  · unfold assertCircuitAllowsRequest
    split
    · split <;> exact h
    · split
      · exact h
      · exact fun _ => rfl
  · exact fun _ => rfl
  · exact nofun
  · rename_i st _
    cases st with
    | closed => exact h
    | halfOpen => exact nofun

theorem replay_apart (settings : Settings) (h : History) : (replay settings h).Apart := by
  induction h with
  | nil => exact nofun
  | cons e older ih => exact effect_apart ih

/-- An unsettled probe survives the events of other searches. -/
theorem isProbe_cons_of (hp : isProbe older id = true)
    (he : opsOf older e.search ≠ [.check (.ok .halfOpen)]) : isProbe (e :: older) id = true := by
  have hne : e.search ≠ id := by
    rintro rfl
    exact he (isProbe_iff.mp hp)
  rwa [isProbe_cons_ne older hne]

/-- The slot is taken only for an unsettled probe. -/
theorem slot_taken (hr : Recorded settings h)
    (hf : (replay settings h).halfOpenInFlight = true) : ∃ id, isProbe h id = true := by
  induction h with
  | nil => cases hf
  | cons e older ih =>
    have hsuf : older <:+ e :: older := List.suffix_cons e older
    have iho := ih (hr.suffix hsuf)
    rcases hr.before with ⟨r, hop, hnone⟩ | ⟨st, hops, hop⟩
    · have hpair : assertCircuitAllowsRequest settings e.time (replay settings older) =
          (r, replay settings (e :: older)) := by
        refine Prod.ext (hr.checks e older r (List.suffix_refl _) hop) ?_
        simp [replay, effect, hop]
      have hothers : (replay settings older).halfOpenInFlight = true →
          ∃ id, isProbe (e :: older) id = true := fun hfo => by
        obtain ⟨id, hid⟩ := iho hfo
        exact ⟨id, isProbe_cons_of hid (by simp [hnone])⟩
      rcases r with error | _ | _
      · rw [(assert_error hpair).1] at hf
        exact hothers hf
      · rw [(assert_closed hpair).2.2] at hf
        exact hothers hf
      · refine ⟨e.search, isProbe_iff.mpr ?_⟩
        rw [opsOf_cons_self, hop, hnone]
    · rcases hop with hop | hop | hop
      · simp [replay, effect, hop, closeCircuit] at hf
      · simp [replay, effect, hop, recordProviderFailure] at hf
      · cases st with
        | halfOpen => simp [replay, effect, hop, recordCanceledProbe] at hf
        | closed =>
          simp only [replay, effect, hop, recordCanceledProbe] at hf
          obtain ⟨id, hid⟩ := iho hf
          exact ⟨id, isProbe_cons_of hid (by simp [hops])⟩

/-! ## Rejected checks -/

/-- Searches that come to an open circuit before the end of its cooldown are
turned away and leave it as it is, if nobody else is under way. -/
theorem cooldown_idle {newer : History} {t : Nat} (hr : Recorded settings (newer ++ h))
    (ho : (replay settings h).openedAt = some t)
    (hown : ∀ e ∈ newer, opsOf h e.search = [])
    (hearly : ∀ e ∈ newer, ∀ r, e.op = .check r → e.time < t + settings.cooldownMs) :
    replay settings (newer ++ h) = replay settings h ∧
      ∀ e ∈ newer, ∃ error, e.op = .check (.error error) := by
  induction newer with
  | nil => exact ⟨rfl, nofun⟩
  | cons e newer ih =>
    have hsuf : newer ++ h <:+ e :: (newer ++ h) := List.suffix_cons e _
    obtain ⟨hsame, hrejected⟩ := ih (hr.suffix hsuf)
      (fun e' he' => hown e' (List.mem_cons_of_mem e he'))
      (fun e' he' => hearly e' (List.mem_cons_of_mem e he'))
    rcases hr.before with ⟨r, hop, -⟩ | ⟨st, hops, -⟩
    · have hlt := hearly e List.mem_cons_self r hop
      have hcheck : assertCircuitAllowsRequest settings e.time (replay settings (newer ++ h)) =
          (.error (circuitOpenError settings (replay settings h) e.time), replay settings h) := by
        rw [hsame]
        simp [assertCircuitAllowsRequest, ho, hlt]
      refine ⟨by simp [replay, effect, hop, hcheck], fun e' he' => ?_⟩
      rcases List.mem_cons.mp he' with rfl | he'
      · refine ⟨circuitOpenError settings (replay settings h) e'.time, ?_⟩
        rw [hop, ← hr.checks e' (newer ++ h) r (List.suffix_refl _) hop, hcheck]
      · exact hrejected e' he'
    · -- it settles, so it was admitted, but all of `newer` were turned away
      exfalso
      have hmem : CircuitOp.check (.ok st) ∈ opsOf (newer ++ h) e.search :=
        hops ▸ List.mem_singleton_self _
      obtain ⟨a, ha, hop⟩ := List.mem_map.mp hmem
      obtain ⟨ha, hid⟩ := List.mem_filter.mp ha
      rcases List.mem_append.mp ha with ha | ha
      · obtain ⟨error, herror⟩ := hrejected a ha
        rw [hop] at herror
        cases herror
      · have hnone := hown e List.mem_cons_self
        have : a.op ∈ opsOf h e.search := List.mem_map_of_mem (List.mem_filter.mpr ⟨ha, hid⟩)
        rw [hnone] at this
        cases this

end NewsApi.Providers

namespace NewsApi.Providers.Breaker
open NewsApi.Async NewsApi.Collections NewsApi.Config NewsApi.Errors NewsApi.Runtime

variable {settings : Settings} {platform : Platform} {s s' : Searches}

/-! ## Runs -/

/-- All searches that were called have settled. -/
def Quiescent (s : Searches) : Prop :=
  ∀ (i : Nat) task, s.tasks[i]? = some task → ∃ result, task.prog = .pure result

/-- The part of the run since `s`. -/
structure Since (s s' : Searches) : Prop where
  history : s.sh.history <:+ s'.sh.history
  settled : ∀ (i : Nat) task result, s.tasks[i]? = some task → task.prog = .pure result →
    (∃ task', s'.tasks[i]? = some task' ∧ task'.prog = .pure result) ∧
      opsOf s'.sh.history i = opsOf s.sh.history i

theorem Since.refl (s : Searches) : Since s s :=
  ⟨List.suffix_refl _, fun _ task _ hi hp => ⟨⟨task, hi, hp⟩, rfl⟩⟩

/-- The history grows. -/
def HistoryGrows (v v' : View) : Prop := v.sh.history <:+ v'.sh.history

theorem historyGrows_of_sh {v v' : View} (h : v'.sh = v.sh) : HistoryGrows v v' :=
  ⟨[], (congrArg Shared.history h).symm⟩

theorem historyGrows_now (c : Command) (v : View) (r : Reply c) (v' : View)
    (hn : now settings c v = some (r, v')) : HistoryGrows v v' := by
  cases c with
  | assertCircuitAllowsRequest | closeCircuit | recordProviderFailure | recordCanceledProbe st =>
    cases hn
    exact List.suffix_cons _ _
  | _ => exact historyGrows_of_sh (now_leavesCircuit hn trivial)

variable (settings) in
theorem historyGrows_advance {α : Type} (p : Prog Command Reply α) (v : View) :
    HistoryGrows v ((host settings).advance p v).2 :=
  Host.advance_frame (T := HistoryGrows) (fun _ => List.suffix_refl _)
    (fun h h' => List.IsSuffix.trans h h') historyGrows_now
    (fun _ _ => historyGrows_of_sh issue_sh) p v

theorem historyGrows_resume {α : Type} {answer : (c : Command) → Option (Reply c)}
    {p p' : Prog Command Reply α} {v v' : View}
    (h : (host settings).resume answer p v = some (p', v')) : HistoryGrows v v' :=
  Host.resume_frame (T := HistoryGrows) (fun _ => List.suffix_refl _)
    (fun h h' => List.IsSuffix.trans h h') historyGrows_now
    (fun _ _ => historyGrows_of_sh issue_sh)
    (fun _ _ _ _ _ hr => historyGrows_of_sh (reply_frame hr).1) h

/-- One step adds to the history only what the search that runs in it does. -/
structure Adds (i : Nat) (b b' : Searches) : Prop where
  history : b.sh.history <:+ b'.sh.history
  ops : ∀ j, j ≠ i → opsOf b'.sh.history j = opsOf b.sh.history j
  tasks : ∀ (j : Nat) task, j ≠ i → b.tasks[j]? = some task →
    ∃ task', b'.tasks[j]? = some task' ∧ task'.prog = task.prog

theorem Since.adds {b b' : Searches} {i : Nat} (h : Since s b) (ha : Adds i b b')
    (hi : ∀ task result, b.tasks[i]? = some task → task.prog ≠ .pure result) : Since s b' := by
  refine ⟨h.history.trans ha.history, fun j task result hj hp => ?_⟩
  obtain ⟨⟨task1, hj1, hp1⟩, hops⟩ := h.settled j task result hj hp
  have hne : j ≠ i := by
    rintro rfl
    exact hi task1 result hj1 hp1
  obtain ⟨task2, hj2, hp2⟩ := ha.tasks j task1 hne hj1
  exact ⟨⟨task2, hj2, hp2.trans hp1⟩, (ha.ops j hne).trans hops⟩

/-- An event in which no search runs. -/
theorem Since.quiet {b b' : Searches} (h : Since s b) (hh : b'.sh.history = b.sh.history)
    (ht : ∀ (j : Nat) task, b.tasks[j]? = some task →
      ∃ task', b'.tasks[j]? = some task' ∧ task'.prog = task.prog) : Since s b' := by
  refine ⟨by rw [hh]; exact h.history, fun j task result hj hp => ?_⟩
  obtain ⟨⟨task1, hj1, hp1⟩, hops⟩ := h.settled j task result hj hp
  obtain ⟨task2, hj2, hp2⟩ := ht j task1 hj1
  exact ⟨⟨task2, hj2, hp2.trans hp1⟩, by rw [hh]; exact hops⟩

theorem kept_set {tasks : List Task} {i j : Nat} {task task' t : Task}
    (hi : tasks[i]? = some task) (hp : task'.prog = task.prog) (hj : tasks[j]? = some t) :
    ∃ t', (tasks.set i task')[j]? = some t' ∧ t'.prog = t.prog := by
  exact getElem?_set_goes (R := fun _ t t' => t'.prog = t.prog) hi hp (fun _ _ _ => rfl) hj

theorem Since.step {b b' : Searches} {ev : Event} (h : Since s b) (hinv : Inv settings b)
    (hs : Breaker.step settings platform b ev = some b') : Since s b' := by
  cases ev with
  | arrive options randoms =>
    cases hs
    have hgrows := historyGrows_advance settings (search settings platform options).run ⟨b.sh, .start b.tasks.length randoms []⟩
    refine h.adds (i := b.tasks.length) ⟨hgrows, fun j hj => ?_, ?_⟩ ?_
    · have hown : Own settings _ _ := own_advance (search settings platform options).run
        ⟨b.sh, .start b.tasks.length randoms []⟩
      exact hown.2.2 j hj
    · intro j task _ hj
      exact ⟨task, getElem?_append_old hj _, rfl⟩
    · intro task result hi
      simp at hi
  | resume i answer =>
    obtain ⟨task, hi, hr⟩ := Option.bind_eq_some_iff.mp hs
    obtain ⟨⟨prog, v⟩, hres, rfl⟩ := Option.map_eq_some_iff.mp hr
    have hid := (hinv.tasks i task hi).own
    refine h.adds (i := i) ⟨historyGrows_resume hres, fun j hj => ?_, fun j t hj ht => ?_⟩ ?_
    · exact (own_resume hres).2.2 j (by rw [hid]; exact hj)
    · exact ⟨t, (List.getElem?_set_ne (Ne.symm hj)).trans ht, rfl⟩
    · intro t result ht hp
      cases hi.symm.trans ht
      rw [hp] at hres
      cases hres
  | disconnect i =>
    obtain ⟨task, hi, rfl⟩ := Option.map_eq_some_iff.mp hs
    exact h.quiet rfl fun j t hj => kept_set hi rfl hj
  | deadline i =>
    obtain ⟨task, hi, hd⟩ := Option.bind_eq_some_iff.mp hs
    obtain ⟨lo, -, rfl⟩ := Option.map_eq_some_iff.mp hd
    exact h.quiet rfl fun j t hj => kept_set hi rfl hj
  | shutdown =>
    cases hs
    exact h.quiet rfl fun j t hj => ⟨t, hj, rfl⟩
  | elapse ms =>
    cases hs
    exact h.quiet rfl fun j t hj => ⟨t, hj, rfl⟩

theorem since_of_reachable (hi : Inv settings s)
    (h : Reachable (step settings platform) s s') : Inv settings s' ∧ Since s s' :=
  h.invariant (P := fun b => Inv settings b ∧ Since s b) ⟨hi, .refl s⟩
    fun _ _ _ h hs => ⟨h.1.step hs, h.2.step h.1 hs⟩

/-- Whoever acts after a quiescent state was called after it. -/
theorem Since.newcomer {newer : History} (h : Since s s') (hi : Inv settings s)
    (hq : Quiescent s) (hs : newer ++ s.sh.history <:+ s'.sh.history) :
    ∀ e ∈ newer, opsOf s.sh.history e.search = [] := by
  intro e he
  by_cases hlen : s.tasks.length ≤ e.search
  · exact hi.fresh _ hlen
  · obtain ⟨result, hp⟩ := hq e.search _ (List.getElem?_eq_getElem (by omega))
    have hops := (h.settled _ _ result (List.getElem?_eq_getElem (by omega)) hp).2
    have hlen' := (opsOf_suffix hs e.search).length_le
    rw [hops] at hlen'
    have hmem : e.op ∈ opsOf newer e.search :=
      List.mem_map_of_mem (List.mem_filter.mpr ⟨he, by simp⟩)
    have happ : opsOf (newer ++ s.sh.history) e.search =
        opsOf newer e.search ++ opsOf s.sh.history e.search := by simp [opsOf]
    rw [happ, List.length_append] at hlen'
    have := List.length_pos_of_mem hmem
    omega

/-! ## The breaker never wedges -/

/-- The slot is taken only for a probe that has not settled, and never while
the circuit is open. Once all searches have settled, the circuit is closed or
open since some `t`, and then the first search that comes to the check at
`t + cooldown` or later is admitted. -/
structure NeverWedged (settings : Settings) (platform : Platform) (s : Searches) : Prop where
  slot : s.sh.circuit.halfOpenInFlight = true → ∃ (i : Nat) (task : Task),
    s.tasks[i]? = some task ∧ isProbe s.sh.history i = true ∧ ∀ result, task.prog ≠ .pure result
  apart : ¬(s.sh.circuit.halfOpenInFlight = true ∧ ∃ t, s.sh.circuit.openedAt = some t)
  idle : Quiescent s → s.sh.circuit.halfOpenInFlight = false
  admitted : Quiescent s → ∀ t, s.sh.circuit.openedAt = some t →
    ∀ s', Reachable (step settings platform) s s' →
    ∀ e newer r, e :: (newer ++ s.sh.history) <:+ s'.sh.history → e.op = .check r →
      t + settings.cooldownMs ≤ e.time →
      (∀ e' ∈ newer, ∀ r', e'.op = .check r' → e'.time < t + settings.cooldownMs) →
      r = .ok .halfOpen

theorem never_wedged (hs : Reachable (step settings platform) .initial s) :
    NeverWedged settings platform s := by
  have hinv := inv_of_reachable hs
  have hslot : s.sh.circuit.halfOpenInFlight = true → ∃ (i : Nat) (task : Task),
      s.tasks[i]? = some task ∧ isProbe s.sh.history i = true ∧
        ∀ result, task.prog ≠ .pure result := by
    intro hf
    rw [← hinv.consistent.circuit] at hf
    obtain ⟨i, hp⟩ := slot_taken hinv.recorded hf
    have hlt : i < s.tasks.length := by
      by_contra hge
      rw [isProbe_iff, hinv.fresh i (by omega)] at hp
      cases hp
    refine ⟨i, _, List.getElem?_eq_getElem hlt, hp, fun result hpure => ?_⟩
    have := hinv.settled (List.getElem?_eq_getElem hlt) hpure
    rw [isProbe_iff.mp hp] at this
    exact nomatch this.1
  refine ⟨hslot, ?_, ?_, ?_⟩
  · rintro ⟨hf, t, ht⟩
    have := replay_apart settings s.sh.history
    rw [hinv.consistent.circuit] at this
    rw [this hf] at ht
    cases ht
  · intro hq
    rw [Bool.eq_false_iff]
    intro hf
    obtain ⟨i, task, hi, -, hne⟩ := hslot hf
    obtain ⟨result, hp⟩ := hq i task hi
    exact hne result hp
  · intro hq t ht s' hs' e newer r hsuf hop hlate hearly
    obtain ⟨hinv', hsince⟩ := since_of_reachable hinv hs'
    have hcirc := hinv.consistent.circuit
    have hnewer : newer ++ s.sh.history <:+ s'.sh.history :=
      (List.suffix_cons e _).trans hsuf
    obtain ⟨hsame, -⟩ := cooldown_idle (hinv'.recorded.suffix hnewer) (by rw [hcirc]; exact ht)
      (hsince.newcomer hinv hq hnewer) hearly
    rw [← hinv'.recorded.checks e _ r hsuf hop, hsame, hcirc]
    simp [assertCircuitAllowsRequest, ht, Nat.not_lt.mpr hlate]

/-- A run in which the slot is taken. -/
theorem never_wedged_quietProbe :
    ∃ s, run (step lowThreshold .plain) .initial quietProbe = some s ∧
      s.sh.circuit.halfOpenInFlight = true ∧ NeverWedged lowThreshold .plain s := by
  have hrun : (run (step lowThreshold .plain) .initial quietProbe).map
      (fun s => s.sh.circuit.halfOpenInFlight) = some true := rfl
  obtain ⟨s, hs, hf⟩ := Option.map_eq_some_iff.mp hrun
  exact ⟨s, hs, hf, never_wedged ⟨_, hs⟩⟩

end NewsApi.Providers.Breaker
