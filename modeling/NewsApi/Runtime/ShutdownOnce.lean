import NewsApi.Runtime.ShutdownPhases

/-! # A shutdown happens once

Every event takes a shutdown from one phase to another, whatever calls are in
progress. -/
namespace NewsApi.Runtime.Shutdown
open NewsApi.Async NewsApi.Text

variable {server : ShutdownServer} {s : Process}

/-- A state and the calls in progress are in a phase. -/
structure InPhase (server : ShutdownServer) (phase : Phase) (s : Process) (frames : List Frame) :
    Prop where
  ok : phase.Ok
  vars : s.vars = phase.vars
  armed : s.armed = phase.armed
  aborted : s.aborted = phase.forced
  cleanup : s.cleanup = phase.cleanup
  duty : frames.filterMap Frame.duty = phase.duty.toList
  /-- nothing is in progress before the first signal -/
  idle : phase = .idle → frames = []
  closing : .closing ∈ frames → phase.closed = true
  shows : Shows server phase s.log


/-! ## Calls -/

section
variable {phase : Phase} {f : Frame} {frames : List Frame}

theorem InPhase.pop (h : InPhase server phase s (f :: frames)) (hf : f.duty = none) :
    InPhase server phase s frames := by
  refine { h with
    duty := ?_
    idle := fun hphase => ?_
    closing := fun hclosing => h.closing (List.mem_cons_of_mem f hclosing) }
  · rw [← h.duty, List.filterMap_cons_none hf]
  · cases h.idle hphase

theorem InPhase.push (h : InPhase server phase s frames) (hphase : phase ≠ .idle)
    (hf : f.duty = none) (hclosing : f = .closing → phase.closed = true) :
    InPhase server phase s (f :: frames) :=
  { h with
    duty := by rw [List.filterMap_cons_none hf, h.duty]
    idle := fun he => absurd he hphase
    closing := fun hmem => (List.mem_cons.mp hmem).elim (fun he => hclosing he.symm) h.closing }

/-- A call with a duty is the only one that has one. -/
theorem InPhase.duty_cons (h : InPhase server phase s (f :: frames)) {duty : Duty}
    (hf : f.duty = some duty) : phase.duty = some duty ∧ frames.filterMap Frame.duty = [] := by
  have := h.duty
  rw [List.filterMap_cons_some hf] at this
  cases hd : phase.duty with
  | none => simp [hd] at this
  | some d => simp_all

theorem Phase.duty_close (h : phase.duty = some .close) : phase = .starting := by
  unfold Phase.duty at h
  split at h <;> simp_all

theorem Phase.duty_clean {failed : Bool} (h : phase.duty = some (.clean failed)) :
    phase = .reporting failed := by
  unfold Phase.duty at h
  split at h <;> simp_all

theorem Phase.duty_exit (h : phase.duty = some .exit) : ∃ cleanup, phase = .forcing cleanup := by
  unfold Phase.duty at h
  split at h <;> simp_all

theorem Phase.duty_react {exitCode : Option Nat} (h : phase.duty = some (.react exitCode)) :
    (∃ failed, phase = .reacting failed ∧ exitCode = some (exitCodeOf failed)) ∨
      phase = .killed (.settled exitCode) true := by
  unfold Phase.duty at h
  split at h <;> simp_all

end

/-- Some phase describes the state and the calls in progress. -/
def Held (server : ShutdownServer) (t : System) : Prop :=
  ∃ phase frames, t.calls = frames.map Frame.waits ∧ InPhase server phase t.state frames

theorem held_mk {phase : Phase} {frames : List Frame} (h : InPhase server phase s frames) :
    Held server ⟨s, frames.map Frame.waits⟩ := ⟨phase, frames, rfl, h⟩

section
variable {phase : Phase} {frames : List Frame}

/-- A report of `server.close`, which has been called. -/
theorem held_finish (h : InPhase server phase s frames) (hclosed : phase.closed = true)
    (error : Option JsString) :
    Held server (Thread.enter host (finish error)
      ⟨s.record (.reported error), frames.map Frame.waits⟩) := by
  rw [enter_finish, show (s.record (.reported error)).vars = s.vars from rfl]
  by_cases hserving : phase = .serving
  · subst hserving
    rw [if_neg (by simp [h.vars, Phase.vars])]
    refine @held_mk server _ (.reporting error.isSome) (finishFrame error :: frames)
      ⟨trivial, ?_, h.armed, h.aborted, h.cleanup, ?_, nofun, fun _ => rfl, h.shows.first error⟩
    · show { s.vars with finalized := true } = _
      rw [h.vars]
      rfl
    · rw [List.filterMap_cons, h.duty]
      cases error <;> rfl
  · have hfinal : s.vars.finalized = true := by
      rw [h.vars]
      cases phase <;> first | rfl | exact absurd rfl hserving | cases hclosed
    have hreport : phase.report ≠ some none := by
      cases phase <;> simp_all [Phase.report, Phase.closed]
    rw [if_pos hfinal]
    exact held_mk { h with shows := h.shows.reported error hreport }

/-- `server.close` is called. -/
theorem held_starting {signal : JsString}
    (h : InPhase server phase s (.starting signal :: frames)) :
    Held server ⟨{ s with armed := true, vars.timeout := true }.record .serverClose,
      (Frame.closing :: frames).map Frame.waits⟩ := by
  obtain ⟨hduty, hrest⟩ := h.duty_cons rfl
  obtain rfl := Phase.duty_close hduty
  refine @held_mk server _ .serving (.closing :: frames)
    ⟨trivial, ?_, rfl, h.aborted, h.cleanup, hrest, nofun, fun _ => rfl, h.shows.closes⟩
  show { s.vars with timeout := true } = _
  rw [h.vars]
  rfl

/-- The hook for the report of `server.close` returns. -/
theorem held_reporting {f : Frame} {failed : Bool} (h : InPhase server phase s (f :: frames))
    (hf : f.duty = some (.clean failed)) :
    Held server ⟨began (some (exitCodeOf failed)) s, frames.map Frame.waits⟩ := by
  obtain ⟨hduty, hrest⟩ := h.duty_cons hf
  obtain rfl := Phase.duty_clean hduty
  rw [began, if_neg (by simp [h.vars, Phase.vars])]
  refine @held_mk server _ (.queued failed) frames
    ⟨trivial, ?_, h.armed, h.aborted, rfl, hrest, nofun, fun _ => rfl,
      h.shows.same rfl ?_ ?_ rfl rfl rfl⟩
  · show { s.vars with cleanupStarted := true } = _
    rw [h.vars]
    rfl
  · rfl
  · rfl

/-- The hook of a forced exit returns. -/
theorem held_forcing {f : Frame} (h : InPhase server phase s (f :: frames))
    (hf : f.duty = some .exit) :
    Held server ⟨(began none s).record (.exit 1),
      (Frame.exiting 1 :: frames).map Frame.waits⟩ := by
  obtain ⟨hduty, hrest⟩ := h.duty_cons hf
  obtain ⟨cleanup, rfl⟩ := Phase.duty_exit hduty
  have hok : cleanup.isSettled = false := h.ok
  have hcleanup : s.cleanup = cleanup := h.cleanup
  have hclosing : ∀ c p, .closing ∈ Frame.exiting 1 :: frames → (Phase.killed c p).closed = true :=
    fun _ _ _ => rfl
  have hkilled : ∀ c : Cleanup, c.isSettled = false → (Phase.killed c false).duty = none := by
    intro c hc
    cases c <;> rfl
  have hvars := h.vars
  by_cases hidle : cleanup = .idle
  · subst hidle
    rw [began, if_neg (by simp [hvars, Phase.vars])]
    refine @held_mk server _ (.killed (.queued none) false) (.exiting 1 :: frames)
      ⟨⟨nofun, nofun⟩, ?_, h.armed, h.aborted, rfl, hrest, nofun, hclosing _ _,
        h.shows.exits_forced rfl rfl⟩
    show { s.vars with cleanupStarted := true } = _
    rw [hvars]
    rfl
  · rw [began, if_pos (by simp [hvars, Phase.vars, hidle])]
    refine @held_mk server _ (.killed cleanup false) (.exiting 1 :: frames)
      ⟨⟨hidle, nofun⟩, ?_, h.armed, h.aborted, hcleanup, ?_, nofun, hclosing _ _,
        h.shows.exits_forced rfl rfl⟩
    · show s.vars = _
      rw [hvars]
      simp [Phase.vars, hok, hidle]
    · rw [hkilled cleanup hok]
      exact hrest

/-- The last reaction runs. -/
theorem held_reacting {f : Frame} {exitCode : Option Nat}
    (h : InPhase server phase s (f :: frames)) (hf : f.duty = some (.react exitCode)) :
    Held server (Thread.enter host (cleanupSettled exitCode none) ⟨s, frames.map Frame.waits⟩) := by
  obtain ⟨hduty, hrest⟩ := h.duty_cons hf
  have hvars := h.vars
  rw [enter_cleanupSettled]
  obtain ⟨failed, rfl, rfl⟩ | rfl := Phase.duty_react hduty
  · rw [reactionExit, completed, if_neg (by simp [hvars, Phase.vars]),
      if_pos (by simp [hvars, Phase.vars])]
    refine @held_mk server _ (.exited failed) (.exiting (exitCodeOf failed) :: frames)
      ⟨trivial, ?_, rfl, h.aborted, h.cleanup, hrest, nofun, fun _ => rfl, h.shows.exits_cleaned⟩
    show { s.vars with cleanupCompleted := true, timeout := false } = _
    rw [hvars]
    rfl
  · rw [reactionExit, completed, if_pos (by simp [hvars, Phase.vars]),
      if_pos (by simp [hvars, Phase.vars, Cleanup.isSettled])]
    refine @held_mk server _ (.killed (.settled exitCode) false) frames
      ⟨⟨nofun, nofun⟩, ?_, rfl, h.aborted, h.cleanup, hrest, nofun, fun _ => rfl,
        h.shows.same rfl rfl rfl rfl rfl rfl⟩
    show { s.vars with cleanupCompleted := true, timeout := false } = _
    rw [hvars]
    rfl

/-- The innermost call returns. -/
theorem held_back {f : Frame} (h : InPhase server phase s (f :: frames)) {thrown : Option JsString}
    {t : System}
    (ht : Thread.back host (answer thrown) ⟨s, (f :: frames).map Frame.waits⟩ = some t) :
    Held server t := by
  cases f with
  | repeated signal =>
    rw [Thread.back_call rfl] at ht
    cases thrown <;> cases ht
    exact held_mk (h.pop rfl)
  | exiting code =>
    rw [Thread.back_call rfl] at ht
    cases thrown <;> cases ht
    exact held_mk (h.pop rfl)
  | cleaning =>
    rw [Thread.back_call rfl] at ht
    cases thrown <;> cases ht
    exact held_mk (h.pop rfl)
  | closing =>
    rw [Thread.back_call rfl] at ht
    cases thrown <;> cases ht
    · exact held_mk (h.pop rfl)
    · exact held_finish (h.pop rfl) (h.closing List.mem_cons_self) _
  | starting signal =>
    rw [Thread.back_call rfl] at ht
    cases thrown <;> cases ht
    show Held server ⟨{ s with armed := true, vars.timeout := true }.record .serverClose,
      (Frame.closing :: frames).map Frame.waits⟩
    exact held_starting h
  | connections =>
    rw [Thread.back_call rfl] at ht
    cases thrown <;> cases ht
    show Held server ⟨s, (Frame.forcing :: frames).map Frame.waits⟩
    exact held_mk { h with
      idle := fun he => absurd (h.idle he) (List.cons_ne_nil _ _)
      closing := fun hmem => h.closing (by simpa using hmem) }
  | forcing =>
    rw [Thread.back_call rfl] at ht
    cases thrown <;> cases ht
    show Held server (Thread.enter host _ ⟨s, frames.map Frame.waits⟩)
    rw [enter_forceExitEnd]
    exact held_forcing h rfl
  | errored error =>
    rw [Thread.back_call rfl] at ht
    cases thrown <;> cases ht
    show Held server (Thread.enter host (startCleanup (some 1)) ⟨s, frames.map Frame.waits⟩)
    rw [enter_startCleanup]
    exact held_reporting h rfl
  | closed =>
    rw [Thread.back_call rfl] at ht
    cases thrown <;> cases ht
    show Held server (Thread.enter host (startCleanup (some 0)) ⟨s, frames.map Frame.waits⟩)
    rw [enter_startCleanup]
    exact held_reporting h rfl
  | caught exitCode error =>
    rw [Thread.back_call rfl] at ht
    cases thrown <;> cases ht
    exact held_reacting h rfl

theorem Phase.armed_free (harmed : phase.armed = true) (hduty : phase.duty = none) :
    phase = .serving ∨ (∃ failed, phase = .queued failed) ∨ ∃ failed, phase = .running failed := by
  cases phase <;> simp_all [Phase.armed, Phase.duty]

/-- The deadline fires. -/
theorem held_deadline (h : InPhase server phase s []) (harmed : s.armed = true) :
    Held server (Thread.enter host (forceExit server)
      ⟨{ s with armed := false }.record .deadline, []⟩) := by
  have hvars := h.vars
  have hfree := Phase.armed_free (h.armed.symm.trans harmed) (by simpa using h.duty)
  have hphase : phase.cleanup.isSettled = false ∧ phase.exits = [] ∧ phase.closed = true ∧
      phase.forced = false ∧ phase.vars.forced = false ∧ phase.vars.cleanupCompleted = false ∧
      { phase.vars with forced := true, finalized := true } =
        (Phase.forcing phase.cleanup).vars := by
    obtain rfl | ⟨failed, rfl⟩ | ⟨failed, rfl⟩ := hfree <;> exact ⟨rfl, rfl, rfl, rfl, rfl, rfl, rfl⟩
  obtain ⟨hsettled, hexits, hclosed, hforced, hunforced, hopen, hnext⟩ := hphase
  have haborted : s.aborted = false := h.aborted.trans hforced
  rw [enter_forceExit (by rw [← hunforced, ← hvars]; rfl) (by rw [← hopen, ← hvars]; rfl)]
  have hlog := h.shows.fires hclosed hexits hsettled
  unfold forcedLog at hlog
  unfold forcedBy exitFrame
  simp only [Process.record, haborted, Bool.false_eq_true, if_false]
  split
  · rename_i hserver
    rw [if_pos hserver] at hlog
    exact @held_mk server _ (.forcing phase.cleanup) [.connections]
      ⟨hsettled, by rw [← hnext, ← hvars], rfl, rfl, h.cleanup, rfl, nofun, fun _ => rfl, hlog⟩
  · rename_i hserver
    rw [if_neg hserver] at hlog
    exact @held_mk server _ (.forcing phase.cleanup) [.forcing]
      ⟨hsettled, by rw [← hnext, ← hvars], rfl, rfl, h.cleanup, rfl, nofun, fun _ => rfl, hlog⟩

theorem Phase.queued_free {exitCode : Option Nat} (hcleanup : phase.cleanup = .queued exitCode)
    (hduty : phase.duty = none) : (∃ failed, phase = .queued failed ∧
      exitCode = some (exitCodeOf failed)) ∨ ∃ pending, phase = .killed (.queued exitCode) pending := by
  cases phase <;> simp_all [Phase.cleanup, Phase.duty]

theorem Phase.running_free {exitCode : Option Nat} (hcleanup : phase.cleanup = .running exitCode)
    (hduty : phase.duty = none) : (∃ failed, phase = .running failed ∧
      exitCode = some (exitCodeOf failed)) ∨ ∃ pending, phase = .killed (.running exitCode) pending := by
  cases phase <;> simp_all [Phase.cleanup, Phase.duty]

/-- `cleanup` is called. -/
theorem held_cleanup {exitCode : Option Nat} (h : InPhase server phase s [])
    (hqueued : s.cleanup = .queued exitCode) :
    Held server (Thread.enter host runCleanup ⟨{ s with cleanup := .running exitCode }, []⟩) := by
  have hfree := Phase.queued_free (h.cleanup.symm.trans hqueued) (by simpa using h.duty)
  show Held server ⟨{ s with cleanup := .running exitCode }.record .cleanup,
    [Frame.cleaning].map Frame.waits⟩
  obtain ⟨failed, rfl, rfl⟩ | ⟨pending, rfl⟩ := hfree
  · exact @held_mk server _ (.running failed) [.cleaning]
      ⟨trivial, h.vars, h.armed, h.aborted, rfl, rfl, nofun, fun _ => rfl,
        h.shows.runs rfl rfl rfl rfl rfl rfl⟩
  · exact @held_mk server _ (.killed (.running exitCode) pending) [.cleaning]
      ⟨⟨nofun, h.ok.2⟩, h.vars, h.armed, h.aborted, rfl, rfl, nofun, fun _ => rfl,
        h.shows.runs rfl rfl rfl rfl rfl rfl⟩

/-- `cleanup` has settled. -/
theorem held_settles {exitCode : Option Nat} (h : InPhase server phase s [])
    (hrunning : s.cleanup = .running exitCode) (error : Option JsString) :
    Held server (Thread.enter host (cleanupSettled exitCode error)
      ⟨{ s with cleanup := .settled exitCode }.record (.settled error), []⟩) := by
  have hfree := Phase.running_free (h.cleanup.symm.trans hrunning) (by simpa using h.duty)
  have hsettled : ∀ message, ∃ phase', InPhase server phase'
      ({ s with cleanup := .settled exitCode }.record (.settled error))
      [.caught exitCode message] := by
    intro message
    obtain ⟨failed, rfl, rfl⟩ | ⟨pending, rfl⟩ := hfree
    · exact ⟨.reacting failed, trivial, h.vars, h.armed, h.aborted, rfl, rfl, nofun, fun _ => rfl,
        h.shows.settles error rfl rfl rfl rfl rfl rfl⟩
    · have hpending : pending = false := by
        cases pending with
        | false => rfl
        | true => cases h.ok.2 rfl
      subst hpending
      exact ⟨.killed (.settled exitCode) true, ⟨nofun, fun _ => rfl⟩, h.vars, h.armed, h.aborted,
        rfl, rfl, nofun, fun _ => rfl, h.shows.settles error rfl rfl rfl rfl rfl rfl⟩
  cases error with
  | some message =>
    obtain ⟨phase', hphase'⟩ := hsettled message
    exact held_mk hphase'
  | none =>
    obtain ⟨phase', hphase'⟩ := hsettled []
    exact held_reacting hphase' rfl

/-- Another signal, or the first. -/
theorem held_signal (h : InPhase server phase s frames) (signal : JsString) :
    Held server (Thread.enter host (shutdown signal) ⟨s, frames.map Frame.waits⟩) := by
  have hvars := h.vars
  rw [enter_shutdown]
  by_cases hidle : phase = .idle
  · subst hidle
    obtain rfl := h.idle rfl
    rw [if_neg (by simp [hvars, Phase.vars])]
    refine @held_mk server _ .starting [.starting signal]
      ⟨trivial, ?_, h.armed, h.aborted, h.cleanup, rfl, nofun, nofun,
        h.shows.same rfl rfl rfl rfl rfl rfl⟩
    show { s.vars with started := true } = _
    rw [hvars]
    rfl
  · have hstarted : s.vars.started = true := by
      rw [hvars]
      cases phase <;> first | rfl | exact absurd rfl hidle
    rw [if_pos hstarted]
    exact held_mk (h.push (f := .repeated signal) hidle rfl nofun)

end

theorem held_step {t t' : System} {event : Event} (h : Held server t)
    (ht : step server t event = some t') : Held server t' := by
  obtain ⟨s, calls⟩ := t
  obtain ⟨phase, frames, rfl, hs⟩ := h
  cases event with
  | signal signal =>
    cases ht
    exact held_signal hs signal
  | callback error =>
    simp only [step] at ht
    split at ht
    · cases ht
      rename_i hclose
      refine held_finish hs ?_ error
      have hcount := hs.shows.close
      cases hc : phase.closed with
      | true => rfl
      | false =>
        rw [hc] at hcount
        exact absurd hclose (List.count_eq_zero.mp hcount)
    · cases ht
  | returns thrown =>
    cases frames with
    | nil => cases ht
    | cons f frames => exact held_back hs ht
  | deadline =>
    simp only [step] at ht
    split at ht
    · cases ht
      rename_i hready
      rw [Bool.and_eq_true, List.isEmpty_iff, List.map_eq_nil_iff] at hready
      obtain ⟨rfl, harmed⟩ := hready
      exact held_deadline hs harmed
    · cases ht
  | cleanupRuns =>
    simp only [step] at ht
    split at ht
    · cases ht
      rename_i hnil hqueued
      obtain rfl := List.map_eq_nil_iff.mp hnil
      exact held_cleanup hs hqueued
    · cases ht
  | cleanupSettles error =>
    simp only [step] at ht
    split at ht
    · cases ht
      rename_i hnil hrunning
      obtain rfl := List.map_eq_nil_iff.mp hnil
      exact held_settles hs hrunning error
    · cases ht

theorem held_of_reachable {t : System} (h : Reachable (step server) System.initial t) :
    Held server t := by
  refine h.invariant (@held_mk server _ .idle [] ?_) fun t event t' => held_step
  refine ⟨trivial, rfl, rfl, rfl, rfl, rfl, fun _ => rfl, nofun, ?_⟩
  exact ⟨rfl, rfl, ⟨nofun, nofun⟩, ⟨nofun, nofun⟩, nofun, rfl, fun r hr => Option.some.inj hr ▸ rfl,
    trivial⟩

/-! ## The whole shutdown -/

/-- One shutdown, read off what a run shows; the log is newest first. -/
structure ShutdownOnce (server : ShutdownServer) (t : System) : Prop where
  close_le_one : t.state.log.count .serverClose ≤ 1
  close_one : t.state.vars.started = true → t.calls = [] → t.state.log.count .serverClose = 1
  cleanup_le_one : t.state.log.count .cleanup ≤ 1
  exit_le_one : (exitCodes t.state.log).length ≤ 1
  exit_zero : ∀ later earlier, t.state.log = later ++ .exit 0 :: earlier →
    firstReport earlier = some none ∧ (∃ error, .settled error ∈ earlier) ∧
      .deadline ∉ t.state.log
  deadline : ∀ later earlier, t.state.log = later ++ .deadline :: earlier →
    exitCodes earlier = [] ∧ ∀ error, .settled error ∉ earlier
  deadline_exit : .deadline ∈ t.state.log → ∀ later code earlier,
    t.state.log = later ++ .exit code :: earlier → code = 1 ∧ .deadline ∈ earlier ∧
      .abortShutdown ∈ earlier ∧ (server.closeAllConnections = true → .closeAllConnections ∈ earlier)
  exited : t.calls = [] → (.deadline ∈ t.state.log ∨
    (∃ error, .reported error ∈ t.state.log) ∧ ∃ error, .settled error ∈ t.state.log) →
    exitCodes t.state.log ≠ []

theorem Orderly.split {entry : Entry} {later earlier : List Entry}
    (h : Orderly server (later ++ entry :: earlier)) : Justified server earlier entry := by
  induction later with
  | nil => exact h.1
  | cons e later ih => exact ih h.2

theorem mem_exitCodes {log : List Entry} {code : Nat} :
    code ∈ exitCodes log ↔ .exit code ∈ log := by
  simp only [exitCodes, List.mem_filterMap]
  constructor
  · rintro ⟨entry, hmem, he⟩
    cases entry <;> cases he
    exact hmem
  · exact fun h => ⟨.exit code, h, rfl⟩

section
variable {phase : Phase}

theorem Phase.closed_free (hstarted : phase.vars.started = true) (hduty : phase.duty = none) :
    phase.closed = true := by
  cases phase <;> simp_all [Phase.vars, Phase.closed, Phase.duty]

theorem Phase.exits_zero (h : 0 ∈ phase.exits) : phase.forced = false := by
  cases phase <;> simp_all [Phase.exits, Phase.forced]

/-- Without a call in progress, a deadline or a cleanup that is over means an exit. -/
theorem Phase.exits_free (hok : phase.Ok) (hduty : phase.duty = none)
    (h : phase.forced = true ∨ phase.cleanup.isSettled = true) : phase.exits ≠ [] := by
  cases phase <;> simp_all [Phase.exits, Phase.forced, Phase.duty, Phase.cleanup, Cleanup.isSettled]

/-- A shutdown happens once and exits with the right status. -/
theorem shutdown_once {t : System} (h : Reachable (step server) System.initial t) :
    ShutdownOnce server t := by
  obtain ⟨phase, frames, hcalls, hs⟩ := held_of_reachable h
  have hshows := hs.shows
  have hfree : t.calls = [] → phase.duty = none := by
    intro hnil
    obtain rfl := List.map_eq_nil_iff.mp (hcalls.symm.trans hnil)
    simpa using hs.duty
  have hexit : ∀ later code earlier, t.state.log = later ++ .exit code :: earlier →
      .deadline ∈ t.state.log → .deadline ∈ earlier := by
    intro later code earlier hlog hmem
    rw [hlog, List.mem_append, List.mem_cons] at hmem
    obtain hlater | hcases | hearlier := hmem
    · -- a deadline after the exit would have found it
      obtain ⟨last, first, rfl⟩ := List.append_of_mem hlater
      have hjust := (hlog ▸ hshows.orderly :
        Orderly server ((last ++ .deadline :: first) ++ .exit code :: earlier))
      rw [List.append_assoc, List.cons_append] at hjust
      have hnone := hjust.split.1
      have : code ∈ exitCodes (first ++ .exit code :: earlier) :=
        mem_exitCodes.mpr (List.mem_append_right _ List.mem_cons_self)
      rw [hnone] at this
      cases this
    · cases hcases
    · exact hearlier
  refine ⟨?_, ?_, ?_, ?_, ?_, ?_, ?_, ?_⟩
  · rw [hshows.close]
    exact Bool.toNat_le _
  · intro hstarted hnil
    rw [hshows.close]
    rw [hs.vars] at hstarted
    rw [Phase.closed_free hstarted (hfree hnil)]
    rfl
  · rw [hshows.cleaned]
    exact Bool.toNat_le _
  · rw [hshows.exits]
    cases phase <;> simp [Phase.exits]
  · intro later earlier hlog
    have hjust := (hlog ▸ hshows.orderly : Orderly server (later ++ .exit 0 :: earlier)).split
    obtain ⟨hfirst, hsettled⟩ := hjust.1 rfl
    refine ⟨hfirst, hsettled, fun hdeadline => ?_⟩
    have hzero : 0 ∈ exitCodes t.state.log :=
      mem_exitCodes.mpr (hlog ▸ List.mem_append_right _ List.mem_cons_self)
    rw [hshows.exits] at hzero
    exact Bool.false_ne_true ((Phase.exits_zero hzero).symm.trans (hshows.deadline.mp hdeadline))
  · intro later earlier hlog
    exact (hlog ▸ hshows.orderly : Orderly server (later ++ .deadline :: earlier)).split
  · intro hdeadline later code earlier hlog
    have hjust := (hlog ▸ hshows.orderly : Orderly server (later ++ .exit code :: earlier)).split
    have hearlier := hexit later code earlier hlog hdeadline
    obtain ⟨hcode, habort, hconnections⟩ := hjust.2 hearlier
    exact ⟨hcode, hearlier, habort, hconnections⟩
  · intro hnil hover
    rw [hshows.exits]
    refine Phase.exits_free hs.ok (hfree hnil) ?_
    rcases hover with hdeadline | ⟨-, hsettled⟩
    · exact .inl (hshows.deadline.mp hdeadline)
    · exact .inr (hshows.settled.mp hsettled)

/-- A server whose close hangs: the deadline closes its connections, whose
report comes back within that call. -/
theorem shutdown_once_forced : ∃ t, ShutdownOnce ⟨true⟩ t ∧ t.calls = [] ∧
    t.state.log = [.settled none, .cleanup, .exit 1, .reported none, .closeAllConnections,
      .abortShutdown, .deadline, .serverClose] := by
  obtain ⟨t, hreach, hshow⟩ : ∃ t, Reachable (step ⟨true⟩) System.initial t ∧
      (t.calls.isEmpty && t.state.log == [.settled none, .cleanup, .exit 1, .reported none,
        .closeAllConnections, .abortShutdown, .deadline, .serverClose]) = true := Reachable.of_run _
    [.signal (js "SIGTERM"), .returns none, .returns none, .deadline, .callback none, .returns none,
      .returns none, .returns none, .cleanupRuns, .returns none, .cleanupSettles none] rfl
  rw [Bool.and_eq_true, List.isEmpty_iff, beq_iff_eq] at hshow
  exact ⟨t, shutdown_once hreach, hshow.1, hshow.2⟩

/-- A second report does not count: the server says that it closed and then that
it did not, and the exit is 0. -/
theorem exit_zero_after_error : ¬∀ server t, Reachable (step server) System.initial t →
    .exit 0 ∈ t.state.log → ∀ error, .reported (some error) ∉ t.state.log := by
  intro h
  obtain ⟨t, hreach, hshow⟩ : ∃ t, Reachable (step ⟨true⟩) System.initial t ∧
      (decide (.exit 0 ∈ t.state.log) &&
        decide (.reported (some (js "EIO")) ∈ t.state.log)) = true := Reachable.of_run _
    [.signal (js "SIGTERM"), .returns none, .returns none, .callback none, .returns none,
      .callback (some (js "EIO")), .cleanupRuns, .returns none, .cleanupSettles none] rfl
  rw [Bool.and_eq_true, decide_eq_true_eq, decide_eq_true_eq] at hshow
  exact h ⟨true⟩ t hreach hshow.1 _ hshow.2

end

end NewsApi.Runtime.Shutdown
