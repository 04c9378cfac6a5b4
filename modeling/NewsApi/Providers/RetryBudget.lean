import NewsApi.Async.Host
import NewsApi.Async.Run
import NewsApi.Providers.RetryCommands

/-! # The retry budget

One retry loop, its operation settling in any way, its signal aborted at any
moment. The program is refined by a machine of five stages (`Moves`), on which
the attempts made so far and what may follow are an invariant. -/
namespace NewsApi.Providers.RetryBudget
open NewsApi.Async NewsApi.Text NewsApi.Config NewsApi.Errors

structure World (T : Type) where
  aborted : Bool
  randoms : Nat → Rat
  drawn : Nat
  /-- what the attempts settled with, the newest first; `none`: not yet -/
  attempts : List (Option (Except JsError T))

variable {T : Type}

/-- The newest attempt settles. -/
def World.settle (w : World T) (result : Except JsError T) : World T :=
  { w with attempts := some result :: w.attempts.tail }

def now : (c : RetryCommand) → World T → Option (RetryReply T c × World T)
  | .aborted, w => some (w.aborted, w)
  | .random, w => some (w.randoms w.drawn, { w with drawn := w.drawn + 1 })
  | .operation, _ | .setTimeout _, _ | .tick, _ => none

def issue : RetryCommand → World T → World T
  | .operation, w => { w with attempts := none :: w.attempts }
  | _, w => w

/-- The operation settles in any way. A timer ends, or rejects once the signal
is aborted. -/
def reply : (c : RetryCommand) → RetryReply T c → World T → Option (World T)
  | .operation, result, w => some (w.settle result)
  | .setTimeout _, .ok (), w => some w
  | .setTimeout _, .error .requestAborted, w => if w.aborted then some w else none
  | .tick, _, w => some w
  | _, _, _ => none

def host (T : Type) : Host RetryCommand (RetryReply T) (World T) where
  now := now
  issue := issue
  reply := reply

abbrev Program (T : Type) : Type 1 := Prog RetryCommand (RetryReply T) (Except JsError T)

structure Retrying (T : Type) where
  world : World T
  prog : Program T
  /-- how often the program has gone on -/
  answers : Nat

inductive Event (T : Type) where
  | resume (answer : (c : RetryCommand) → Option (RetryReply T c))
  | abort

def World.start (T : Type) (aborted : Bool) (randoms : Nat → Rat) : World T where
  aborted := aborted
  randoms := randoms
  drawn := 0
  attempts := []

/-- `withUpstreamRetries` has been called and has run to the head of its loop. -/
def start (T : Type) (settings : Settings) (world : World T) : Retrying T :=
  let (prog, world) := (host T).advance (retrying T settings) world
  { world := world, prog := prog, answers := 0 }

def step (s : Retrying T) : Event T → Option (Retrying T)
  | .resume answer => ((host T).resume answer s.prog s.world).map fun (prog, world) =>
      { world := world, prog := prog, answers := s.answers + 1 }
  | .abort => some { s with world.aborted := true }

/-! ## The stages of an attempt -/

inductive Stage (T : Type) where
  | head (attempt : Nat)
  | calling (attempt : Nat)
  | sleeping (attempt : Nat)
  | slept (attempt : Nat) (result : Except JsError Unit)
  | ended (result : Except JsError T)

section
variable (settings : Settings)

/-- The error is retried. -/
structure Retries (attempt : Nat) (w : World T) (e : JsError) : Prop where
  going : w.aborted = false
  uncanceled : isRequestAbortedError e = false
  budget : attempt < settings.retryAttempts
  retryable : isRetryableUpstreamError e = true

/-- The error is passed on. -/
structure Surfaces (attempt : Nat) (w : World T) (e : JsError) : Prop where
  going : w.aborted = false
  uncanceled : isRequestAbortedError e = false
  last : settings.retryAttempts ≤ attempt ∨ isRetryableUpstreamError e = false

/-- What an attempt does at each of its suspensions. -/
inductive Moves : Stage T → World T → Stage T → World T → Prop
  | aborted {a : Nat} {w : World T} (h : w.aborted = true) :
      Moves (.head a) w (.ended (.error .requestAborted)) w
  | call {a : Nat} {w : World T} (h : w.aborted = false) :
      Moves (.head a) w (.calling a) (issue .operation w)
  | value {a : Nat} {w : World T} (v : T) :
      Moves (.calling a) w (.ended (.ok v)) (w.settle (.ok v))
  | canceled {a : Nat} {w : World T} {e : JsError}
      (h : w.aborted = true ∨ isRequestAbortedError e = true) :
      Moves (.calling a) w (.ended (.error .requestAborted)) (w.settle (.error e))
  | surfaced {a : Nat} {w : World T} {e : JsError} (h : Surfaces settings a w e) :
      Moves (.calling a) w (.ended (.error e)) (w.settle (.error e))
  | retried {a : Nat} {w : World T} {e : JsError} (h : Retries settings a w e) :
      Moves (.calling a) w (.sleeping a) { w.settle (.error e) with drawn := w.drawn + 1 }
  | woken {a : Nat} {w : World T} : Moves (.sleeping a) w (.slept a (.ok ())) w
  | interrupted {a : Nat} {w : World T} (h : w.aborted = true) :
      Moves (.sleeping a) w (.slept a (.error .requestAborted)) w
  | again {a : Nat} {w : World T} : Moves (.slept a (.ok ())) w (.head (a + 1)) w
  | gaveUp {a : Nat} {w : World T} {e : JsError} :
      Moves (.slept a (.error e)) w (.ended (.error e)) w

/-- The loop, at its head. -/
def loopProg (T : Type) (attempt : Nat) : Program T :=
  (AsyncM.loop attempt ((retryRuntime T).attemptOnce settings (operation T))).run

/-- The rest of an attempt, and the loop after it. -/
def finish (x : AsyncM JsError RetryCommand (RetryReply T) (Nat ⊕ T)) : Program T :=
  (x.run.bind fun r => .pure (AsyncM.roundOf r)).bind fun
    | .inl attempt => loopProg settings T attempt
    | .inr g => .pure g

/-! ## The program at each stage -/

def AtSlept (p : Program T) (a : Nat) (result : Except JsError Unit) : Prop :=
  ∃ k, p = .call .tick k ∧ ∀ w, (host T).advance (k ()) w = match result with
    | .ok () => (loopProg settings T (a + 1), w)
    | .error e => (.pure (.error e), w)

def AtSleeping (p : Program T) (a : Nat) : Prop :=
  ∃ delayMs k, p = .call (.setTimeout delayMs) k ∧
    ∀ r w, ∃ q, (host T).advance (k r) w = (q, w) ∧ AtSlept settings q a r

def AtCalling (p : Program T) (a : Nat) : Prop :=
  ∃ k, p = .call .operation k ∧ ∀ w,
    (∀ v, (host T).advance (k (.ok v)) w = (.pure (.ok v), w)) ∧
    ∀ e, (host T).advance (k (.error e)) w =
      (host T).advance (finish settings ((retryRuntime T).afterFailedAttempt settings a e)) w

def AtStage (p : Program T) : Stage T → Prop
  | .head a => p = loopProg settings T a
  | .calling a => AtCalling settings p a
  | .sleeping a => AtSleeping settings p a
  | .slept a result => AtSlept settings p a result
  | .ended result => p = .pure result

variable {settings}

theorem resume_head (answer : (c : RetryCommand) → Option (RetryReply T c)) (a : Nat)
    (w : World T) : (host T).resume answer (loopProg settings T a) w =
      some ((host T).advance (finish settings
        ((retryRuntime T).attemptOnce settings (operation T) a)) w) := by
  refine congrArg (fun p => some ((host T).advance p w)) ?_
  refine congrArg (Prog.bind _) (funext fun r => ?_)
  cases r <;> rfl

theorem advance_aborted {g : Bool → AsyncM JsError RetryCommand (RetryReply T) (Nat ⊕ T)}
    (w : World T) : (host T).advance (finish settings (liftM (retryRuntime T).aborted >>= g)) w =
      (host T).advance (finish settings (g w.aborted)) w := rfl

theorem advance_random {g : Rat → AsyncM JsError RetryCommand (RetryReply T) (Nat ⊕ T)}
    (w : World T) : (host T).advance (finish settings (liftM (retryRuntime T).random >>= g)) w =
      (host T).advance (finish settings (g (w.randoms w.drawn)))
        { w with drawn := w.drawn + 1 } := rfl

/-- A round that finds the signal aborted, and one that calls the operation. -/
theorem attempt_aborted (a : Nat) {w : World T} (h : w.aborted = true) :
    (host T).advance (finish settings
      ((retryRuntime T).attemptOnce settings (operation T) a)) w =
      (.pure (.error .requestAborted), w) := by
  obtain ⟨aborted, randoms, drawn, attempts⟩ := w
  cases h
  rfl

variable (settings) in
theorem attempt_called (a : Nat) {w : World T} (h : w.aborted = false) :
    ∃ q, (host T).advance (finish settings
      ((retryRuntime T).attemptOnce settings (operation T) a)) w = (q, issue .operation w) ∧
      AtCalling settings q a := by
  obtain ⟨aborted, randoms, drawn, attempts⟩ := w
  cases h
  exact ⟨_, rfl, _, rfl, fun w1 => ⟨fun v => rfl, fun e => rfl⟩⟩

theorem advance_canceled (a : Nat) {w : World T} {e : JsError}
    (h : w.aborted = true ∨ isRequestAbortedError e = true) :
    (host T).advance (finish settings ((retryRuntime T).afterFailedAttempt settings a e)) w =
      (.pure (.error .requestAborted), w) := by
  rw [RetryRuntime.afterFailedAttempt, advance_aborted, if_pos (by simpa using h)]
  rfl

theorem advance_surfaced {a : Nat} {w : World T} {e : JsError} (h : Surfaces settings a w e) :
    (host T).advance (finish settings ((retryRuntime T).afterFailedAttempt settings a e)) w =
      (.pure (.error e), w) := by
  rw [RetryRuntime.afterFailedAttempt, advance_aborted, if_neg (by simp [h.going, h.uncanceled]),
    if_pos (by simpa using h.last)]
  rfl

/-- The pause before the next attempt. -/
def pause (T : Type) (delayMs attempt : Nat) :
    AsyncM JsError RetryCommand (RetryReply T) (Nat ⊕ T) := do
  (retryRuntime T).withSpan ((retryRuntime T).sleep delayMs)
  pure (.inl (attempt + 1))

theorem pause_run (delayMs attempt : Nat) : (pause T delayMs attempt).run =
    .call .aborted fun aborted =>
      if aborted then .call .tick fun _ => .pure (.error .requestAborted)
      else .call (.setTimeout delayMs) fun r => .call .tick fun _ => .pure (match r with
        | .ok () => .ok (.inl (attempt + 1))
        | .error e => .error e) := by
  refine congrArg (Prog.call RetryCommand.aborted) (funext fun aborted => ?_)
  cases aborted with
  | true => rfl
  | false =>
    refine congrArg (Prog.call (RetryCommand.setTimeout delayMs)) (funext fun r => ?_)
    cases r <;> rfl

theorem advance_retried {a : Nat} {w : World T} {e : JsError} (h : Retries settings a w e) :
    ∃ q, (host T).advance
        (finish settings ((retryRuntime T).afterFailedAttempt settings a e)) w =
        (q, { w with drawn := w.drawn + 1 }) ∧ AtSleeping settings q a := by
  rw [RetryRuntime.afterFailedAttempt, advance_aborted, if_neg (by simp [h.going, h.uncanceled]),
    if_neg (by simp [h.retryable, Nat.not_le.mpr h.budget]), advance_random]
  generalize retryDelayMs settings a (w.randoms w.drawn) = delayMs
  obtain ⟨aborted, randoms, drawn, attempts⟩ := w
  obtain ⟨rfl, -, -, -⟩ := h
  show ∃ q, (host T).advance (finish settings (pause T delayMs a)) _ = (q, _) ∧ _
  rw [finish, pause_run]
  refine ⟨_, rfl, delayMs, _, rfl, fun r w1 => ?_⟩
  cases r with
  | error e => exact ⟨_, rfl, _, rfl, fun w2 => rfl⟩
  | ok u => exact ⟨_, rfl, _, rfl, fun w2 => rfl⟩

theorem classify (settings : Settings) (a : Nat) (w : World T) (e : JsError) :
    (w.aborted = true ∨ isRequestAbortedError e = true) ∨ Surfaces settings a w e ∨
      Retries settings a w e := by
  cases hab : w.aborted with
  | true => exact .inl (.inl rfl)
  | false =>
    cases hcancel : isRequestAbortedError e with
    | true => exact .inl (.inr rfl)
    | false =>
      by_cases hlast : settings.retryAttempts ≤ a ∨ isRetryableUpstreamError e = false
      · exact .inr (.inl ⟨hab, hcancel, hlast⟩)
      · simp only [not_or, Nat.not_le, Bool.not_eq_false] at hlast
        exact .inr (.inr ⟨hab, hcancel, hlast.1, hlast.2⟩)

/-- The machine of the stages simulates the program. -/
theorem resume_moves {answer : (c : RetryCommand) → Option (RetryReply T c)} {stage : Stage T}
    {p p' : Program T} {w w' : World T} (hp : AtStage settings p stage)
    (hr : (host T).resume answer p w = some (p', w')) :
    ∃ stage', Moves settings stage w stage' w' ∧ AtStage settings p' stage' := by
  cases stage with
  | head a =>
    rw [show p = _ from hp, resume_head] at hr
    cases hab : w.aborted with
    | true =>
      rw [attempt_aborted a hab] at hr
      cases hr
      exact ⟨_, .aborted hab, rfl⟩
    | false =>
      obtain ⟨q, hq, hat⟩ := attempt_called settings a hab
      rw [hq] at hr
      cases hr
      exact ⟨.calling a, .call hab, hat⟩
  | calling a =>
    obtain ⟨k, rfl, hk⟩ := hp
    obtain ⟨r, -, w1, hw1, he⟩ := Host.resume_call hr
    cases hw1
    cases r with
    | ok v =>
      rw [(hk _).1 v] at he
      cases he
      exact ⟨.ended (.ok v), .value v, rfl⟩
    | error e =>
      rw [(hk _).2 e] at he
      rcases classify settings a w e with hcancel | hsurfaces | hretries
      · rw [advance_canceled (w := w.settle (.error e)) a hcancel] at he
        cases he
        exact ⟨_, .canceled hcancel, rfl⟩
      · rw [advance_surfaced (w := w.settle (.error e))
          ⟨hsurfaces.1, hsurfaces.2, hsurfaces.3⟩] at he
        cases he
        exact ⟨_, .surfaced hsurfaces, rfl⟩
      · obtain ⟨q, hq, hat⟩ := advance_retried (w := w.settle (.error e))
          ⟨hretries.1, hretries.2, hretries.3, hretries.4⟩
        rw [hq] at he
        cases he
        exact ⟨.sleeping a, .retried hretries, hat⟩
  | sleeping a =>
    obtain ⟨delayMs, k, rfl, hk⟩ := hp
    obtain ⟨r, -, w1, hw1, he⟩ := Host.resume_call hr
    obtain ⟨q, hq, hat⟩ := hk r w1
    cases he.symm.trans hq
    rcases r with e | ⟨⟩
    · cases e with
      | requestAborted =>
        obtain ⟨hab, hw⟩ := Option.ite_none_right_eq_some.mp hw1
        cases hw
        exact ⟨.slept a (.error .requestAborted), .interrupted hab, hat⟩
      | _ => cases hw1
    · cases hw1
      exact ⟨.slept a (.ok ()), .woken, hat⟩
  | slept a result =>
    obtain ⟨k, rfl, hk⟩ := hp
    obtain ⟨r, -, w1, hw1, he⟩ := Host.resume_call hr
    cases hw1
    rw [hk] at he
    rcases result with e | ⟨⟩
    · cases he
      exact ⟨_, .gaveUp, rfl⟩
    · cases he
      exact ⟨.head (a + 1), .again, rfl⟩
  | ended result =>
    rw [show p = _ from hp] at hr
    cases hr

end

/-! ## The attempts -/

/-- Failed with an error that is retried. -/
def RetryableFailure (attempt : Option (Except JsError T)) : Prop :=
  ∃ e, attempt = some (.error e) ∧ isRetryableUpstreamError e = true

/-- How the loop settles after these attempts, with a budget of `R` retries. -/
inductive Settles (R : Nat) (aborted : Bool) :
    List (Option (Except JsError T)) → Except JsError T → Prop where
  | value (v : T) (earlier : List (Option (Except JsError T))) :
      Settles R aborted (some (.ok v) :: earlier) (.ok v)
  | error (e : JsError) (earlier : List (Option (Except JsError T)))
      (huncanceled : isRequestAbortedError e = false)
      (hlast : earlier.length = R ∨ isRetryableUpstreamError e = false) :
      Settles R aborted (some (.error e) :: earlier) (.error e)
  | canceled (e : JsError) (earlier : List (Option (Except JsError T)))
      (hcanceled : isRequestAbortedError e = true) :
      Settles R aborted (some (.error e) :: earlier) (.error .requestAborted)
  | aborted (attempts : List (Option (Except JsError T))) (haborted : aborted = true)
      (hfailed : ∀ a ∈ attempts.head?, ∃ e, a = some (.error e)) :
      Settles R aborted attempts (.error .requestAborted)

theorem Settles.abort {R : Nat} {aborted : Bool} {attempts : List (Option (Except JsError T))}
    {result : Except JsError T} (h : Settles R aborted attempts result) :
    Settles R true attempts result := by
  cases h with
  | value v earlier => exact .value v earlier
  | error e earlier huncanceled hlast => exact .error e earlier huncanceled hlast
  | canceled e earlier hcanceled => exact .canceled e earlier hcanceled
  | aborted _ _ hfailed => exact .aborted attempts rfl hfailed

/-- The attempts and the answers at a stage. -/
def Counted (R : Nat) (answers : Nat) (w : World T) : Stage T → Prop
  | .head a => w.attempts.length = a ∧ a ≤ R ∧ answers = 4 * a ∧
      ∀ r ∈ w.attempts, RetryableFailure r
  | .calling a => ∃ earlier, w.attempts = none :: earlier ∧ earlier.length = a ∧ a ≤ R ∧
      answers = 4 * a + 1 ∧ ∀ r ∈ earlier, RetryableFailure r
  | .sleeping a => w.attempts.length = a + 1 ∧ a < R ∧ answers = 4 * a + 2 ∧
      ∀ r ∈ w.attempts, RetryableFailure r
  | .slept a result => w.attempts.length = a + 1 ∧ a < R ∧ answers = 4 * a + 3 ∧
      (∀ r ∈ w.attempts, RetryableFailure r) ∧
      ∀ e, result = .error e → e = .requestAborted ∧ w.aborted = true
  | .ended result => w.attempts.length ≤ R + 1 ∧ answers ≤ 4 * (R + 1) ∧
      (∀ r ∈ w.attempts.tail, RetryableFailure r) ∧ Settles R w.aborted w.attempts result

theorem RetryableFailure.failed {attempts : List (Option (Except JsError T))}
    (h : ∀ r ∈ attempts, RetryableFailure r) :
    ∀ a ∈ attempts.head?, ∃ e, a = some (.error e) := by
  intro a ha
  obtain ⟨e, he, -⟩ := h a (List.mem_of_head? ha)
  exact ⟨e, he⟩

section
variable {settings : Settings} {answers : Nat}

theorem Counted.moves {stage stage' : Stage T} {w w' : World T}
    (h : Counted settings.retryAttempts answers w stage) (hm : Moves settings stage w stage' w') :
    Counted settings.retryAttempts (answers + 1) w' stage' := by
  cases hm with
  | aborted hab =>
    obtain ⟨hlen, hle, hanswers, hfailed⟩ := h
    refine ⟨by omega, by omega, fun r hr => hfailed r (List.mem_of_mem_tail hr), ?_⟩
    exact .aborted _ hab (RetryableFailure.failed hfailed)
  | call hab =>
    obtain ⟨hlen, hle, hanswers, hfailed⟩ := h
    exact ⟨w.attempts, rfl, hlen, hle, by omega, hfailed⟩
  | value v =>
    obtain ⟨earlier, hattempts, hlen, hle, hanswers, hfailed⟩ := h
    simp only [Counted, World.settle, hattempts, List.tail_cons, List.length_cons]
    exact ⟨by omega, by omega, hfailed, .value v earlier⟩
  | @canceled a w e hcancel =>
    obtain ⟨earlier, hattempts, hlen, hle, hanswers, hfailed⟩ := h
    simp only [Counted, World.settle, hattempts, List.tail_cons, List.length_cons]
    refine ⟨by omega, by omega, hfailed, ?_⟩
    rcases hcancel with hab | hcancel
    · refine .aborted _ hab fun r hr => ⟨e, ?_⟩
      exact (Option.some.inj hr).symm
    · exact .canceled e earlier hcancel
  | @surfaced a w e hsurfaces =>
    obtain ⟨earlier, hattempts, hlen, hle, hanswers, hfailed⟩ := h
    simp only [Counted, World.settle, hattempts, List.tail_cons, List.length_cons]
    refine ⟨by omega, by omega, hfailed, .error e earlier hsurfaces.uncanceled ?_⟩
    exact hsurfaces.last.imp_left fun hbudget => by omega
  | @retried a w e hretries =>
    obtain ⟨earlier, hattempts, hlen, hle, hanswers, hfailed⟩ := h
    simp only [Counted, World.settle, hattempts, List.tail_cons, List.length_cons, List.mem_cons]
    refine ⟨by omega, hretries.budget, by omega, fun r hr => ?_⟩
    rcases hr with hr | hr
    · exact ⟨e, hr, hretries.retryable⟩
    · exact hfailed r hr
  | woken =>
    obtain ⟨hlen, hlt, hanswers, hfailed⟩ := h
    exact ⟨hlen, hlt, by omega, hfailed, fun e he => nomatch he⟩
  | interrupted hab =>
    obtain ⟨hlen, hlt, hanswers, hfailed⟩ := h
    refine ⟨hlen, hlt, by omega, hfailed, fun e he => ⟨?_, hab⟩⟩
    exact (Except.error.inj he).symm
  | again =>
    obtain ⟨hlen, hlt, hanswers, hfailed, -⟩ := h
    exact ⟨hlen, hlt, by omega, hfailed⟩
  | gaveUp =>
    obtain ⟨hlen, hlt, hanswers, hfailed, hinterrupted⟩ := h
    obtain ⟨rfl, hab⟩ := hinterrupted _ rfl
    refine ⟨by omega, by omega, fun r hr => hfailed r (List.mem_of_mem_tail hr), ?_⟩
    exact .aborted _ hab (RetryableFailure.failed hfailed)

theorem Counted.abort {stage : Stage T} {w : World T} {R : Nat} (h : Counted R answers w stage) :
    Counted R answers { w with aborted := true } stage := by
  cases stage with
  | head a => exact h
  | calling a => exact h
  | sleeping a => exact h
  | slept a result =>
    obtain ⟨hlen, hlt, hanswers, hfailed, hinterrupted⟩ := h
    exact ⟨hlen, hlt, hanswers, hfailed, fun e he => ⟨(hinterrupted e he).1, rfl⟩⟩
  | ended result =>
    obtain ⟨hlen, hanswers, hfailed, hsettles⟩ := h
    exact ⟨hlen, hanswers, hfailed, hsettles.abort⟩

end

/-! ## After the abort -/

/-- How the loop ends when the signal was aborted with the attempts `before`: an
attempt under way may still succeed. -/
def EndsAborted (before after : List (Option (Except JsError T))) (result : Except JsError T) :
    Prop :=
  result = .error .requestAborted ∨
    ∃ v earlier, result = .ok v ∧ before = none :: earlier ∧ after = some (.ok v) :: earlier

def AfterAbort (before : List (Option (Except JsError T))) (w : World T) : Stage T → Prop
  | .calling _ => w.attempts = before ∧ ∃ earlier, before = none :: earlier
  | .slept _ (.error e) => w.attempts = before ∧ e = .requestAborted
  | .ended result => w.attempts.length = before.length ∧ EndsAborted before w.attempts result
  | _ => w.attempts = before

theorem AfterAbort.moves {settings : Settings} {stage stage' : Stage T} {w w' : World T}
    {before : List (Option (Except JsError T))} (h : AfterAbort before w stage)
    (hab : w.aborted = true) (hm : Moves settings stage w stage' w') :
    AfterAbort before w' stage' ∧ w'.aborted = true := by
  cases hm with
  | aborted _ => exact ⟨⟨congrArg List.length h, .inl rfl⟩, hab⟩
  | call hgoing =>
    rw [hab] at hgoing
    cases hgoing
  | value v =>
    obtain ⟨hsame, earlier, hbefore⟩ := h
    have hattempts := hsame.trans hbefore
    simp only [AfterAbort, World.settle, hattempts, hbefore, List.tail_cons, List.length_cons]
    exact ⟨⟨trivial, .inr ⟨v, earlier, rfl, rfl, rfl⟩⟩, hab⟩
  | @canceled a w e _ =>
    obtain ⟨hsame, earlier, hbefore⟩ := h
    have hattempts := hsame.trans hbefore
    simp only [AfterAbort, World.settle, hattempts, hbefore, List.tail_cons, List.length_cons]
    exact ⟨⟨trivial, .inl rfl⟩, hab⟩
  | surfaced hsurfaces =>
    rw [hsurfaces.going] at hab
    cases hab
  | retried hretries =>
    rw [hretries.going] at hab
    cases hab
  | woken => exact ⟨h, hab⟩
  | interrupted _ => exact ⟨⟨h, rfl⟩, hab⟩
  | again => exact ⟨h, hab⟩
  | gaveUp =>
    obtain ⟨hsame, rfl⟩ := h
    exact ⟨⟨congrArg List.length hsame, .inl rfl⟩, hab⟩

/-! ## Every run -/

/-- Whatever the operation answers. -/
def failing : (c : RetryCommand) → Option (RetryReply T c)
  | .operation => some (.error .value)
  | .setTimeout _ => some (.ok ())
  | .tick => some ()
  | _ => none

theorem resume_failing {settings : Settings} {stage : Stage T} {p : Program T} {w : World T}
    (hp : AtStage settings p stage) (hend : ∀ result, p ≠ .pure result) :
    ((host T).resume failing p w).isSome = true := by
  cases stage with
  | head a =>
    rw [show p = _ from hp, resume_head]
    rfl
  | calling a => obtain ⟨k, rfl, -⟩ := hp; rfl
  | sleeping a => obtain ⟨delayMs, k, rfl, -⟩ := hp; rfl
  | slept a result => obtain ⟨k, rfl, -⟩ := hp; rfl
  | ended result => exact absurd hp (hend result)

section
variable {settings : Settings}

/-- What is known of a running retry loop. -/
def Inv (settings : Settings) (s : Retrying T) : Prop :=
  ∃ stage, AtStage settings s.prog stage ∧
    Counted settings.retryAttempts s.answers s.world stage

theorem inv_start (aborted : Bool) (randoms : Nat → Rat) :
    Inv settings (start T settings (.start T aborted randoms)) :=
  ⟨.head 0, rfl, rfl, Nat.zero_le _, rfl, fun _ hr => absurd hr List.not_mem_nil⟩

theorem inv_step {s s' : Retrying T} {e : Event T} (h : Inv settings s)
    (hs : step s e = some s') : Inv settings s' := by
  obtain ⟨stage, hat, hcounted⟩ := h
  cases e with
  | resume answer =>
    obtain ⟨⟨prog, world⟩, hr, rfl⟩ := Option.map_eq_some_iff.mp hs
    obtain ⟨stage', hmoves, hat'⟩ := resume_moves hat hr
    exact ⟨stage', hat', hcounted.moves hmoves⟩
  | abort =>
    cases hs
    exact ⟨stage, hat, hcounted.abort⟩

theorem ended_of_pure {stage : Stage T} {result : Except JsError T}
    (h : AtStage settings (.pure result) stage) : stage = .ended result := by
  cases stage with
  | head a => exact nomatch h
  | calling a =>
    obtain ⟨k, hp, -⟩ := h
    cases hp
  | sleeping a =>
    obtain ⟨delayMs, k, hp, -⟩ := h
    cases hp
  | slept a r =>
    obtain ⟨k, hp, -⟩ := h
    cases hp
  | ended r => exact congrArg Stage.ended (Prog.pure.inj h).symm

/-- An aborted loop that has not ended, and what follows. -/
theorem after_abort {s s' : Retrying T} (h : Inv settings s) (hab : s.world.aborted = true)
    (hgoing : ∀ result, s.prog ≠ .pure result) (hs : Reachable step s s') :
    s'.world.attempts.length = s.world.attempts.length ∧
      ∀ result, s'.prog = .pure result →
        EndsAborted s.world.attempts s'.world.attempts result := by
  have hinv : ∃ stage, AtStage settings s'.prog stage ∧
      AfterAbort s.world.attempts s'.world stage ∧ s'.world.aborted = true := by
    refine hs.invariant (P := fun u => ∃ stage, AtStage settings u.prog stage ∧
      AfterAbort s.world.attempts u.world stage ∧ u.world.aborted = true) ?_ ?_
    · obtain ⟨stage, hat, hcounted⟩ := h
      refine ⟨stage, hat, ?_, hab⟩
      cases stage with
      | head a => rfl
      | calling a =>
        obtain ⟨earlier, hattempts, -⟩ := hcounted
        exact ⟨rfl, earlier, hattempts⟩
      | sleeping a => rfl
      | slept a result =>
        rcases result with e | ⟨⟩
        · exact ⟨rfl, (hcounted.2.2.2.2 e rfl).1⟩
        · rfl
      | ended result => exact absurd hat (hgoing result)
    · intro u e u' hu hstep
      obtain ⟨stage, hat, hafter, hab'⟩ := hu
      cases e with
      | resume answer =>
        obtain ⟨⟨prog, world⟩, hr, rfl⟩ := Option.map_eq_some_iff.mp hstep
        obtain ⟨stage', hmoves, hat'⟩ := resume_moves hat hr
        exact ⟨stage', hat', hafter.moves hab' hmoves⟩
      | abort =>
        cases hstep
        exact ⟨stage, hat, by cases stage <;> exact hafter, rfl⟩
  obtain ⟨stage, hat, hafter, -⟩ := hinv
  refine ⟨?_, fun result hend => ?_⟩
  · cases stage with
    | head a => exact congrArg List.length hafter
    | calling a => exact congrArg List.length hafter.1
    | sleeping a => exact congrArg List.length hafter
    | slept a result =>
      rcases result with e | ⟨⟩
      · exact congrArg List.length hafter.1
      · exact congrArg List.length hafter
    | ended result => exact hafter.1
  · rw [hend] at hat
    rw [ended_of_pure hat] at hafter
    exact hafter.2

/-- The loop and its operation, up to now. -/
structure InBudget (R : Nat) (s : Retrying T) : Prop where
  attempts_le : s.world.attempts.length ≤ R + 1
  earlier_failed : ∀ r ∈ s.world.attempts.tail, RetryableFailure r
  settles : ∀ result, s.prog = .pure result →
    Settles R s.world.aborted s.world.attempts result
  /-- it ends after so many answers -/
  answers_le : s.answers ≤ 4 * (R + 1)
  goesOn : (∀ result, s.prog ≠ .pure result) → ∃ s', step s (.resume failing) = some s'
  after_abort : s.world.aborted = true → (∀ result, s.prog ≠ .pure result) →
    ∀ s', Reachable step s s' →
      s'.world.attempts.length = s.world.attempts.length ∧
        ∀ result, s'.prog = .pure result →
          EndsAborted s.world.attempts s'.world.attempts result

theorem Inv.inBudget {s : Retrying T} (h : Inv settings s) :
    InBudget settings.retryAttempts s := by
  have habort := fun hab hgoing s' (hs : Reachable step s s') => after_abort h hab hgoing hs
  obtain ⟨stage, hat, hcounted⟩ := h
  have hgoes : (∀ result, s.prog ≠ .pure result) → ∃ s', step s (.resume failing) = some s' := by
    intro hgoing
    obtain ⟨next, hnext⟩ := Option.isSome_iff_exists.mp (resume_failing (w := s.world) hat hgoing)
    exact ⟨{ world := next.2, prog := next.1, answers := s.answers + 1 }, by simp [step, hnext]⟩
  have hsettles : ∀ result, s.prog = .pure result →
      Settles settings.retryAttempts s.world.aborted s.world.attempts result := by
    intro result hend
    rw [hend] at hat
    rw [ended_of_pure hat] at hcounted
    exact hcounted.2.2.2
  cases stage with
  | head a =>
    obtain ⟨hlen, hle, hanswers, hfailed⟩ := hcounted
    exact ⟨by omega, fun r hr => hfailed r (List.mem_of_mem_tail hr), hsettles, by omega, hgoes,
      habort⟩
  | calling a =>
    obtain ⟨earlier, hattempts, hlen, hle, hanswers, hfailed⟩ := hcounted
    refine ⟨?_, ?_, hsettles, by omega, hgoes, habort⟩
    · rw [hattempts, List.length_cons]
      omega
    · rwa [hattempts]
  | sleeping a =>
    obtain ⟨hlen, hlt, hanswers, hfailed⟩ := hcounted
    exact ⟨by omega, fun r hr => hfailed r (List.mem_of_mem_tail hr), hsettles, by omega, hgoes,
      habort⟩
  | slept a result =>
    obtain ⟨hlen, hlt, hanswers, hfailed, -⟩ := hcounted
    exact ⟨by omega, fun r hr => hfailed r (List.mem_of_mem_tail hr), hsettles, by omega, hgoes,
      habort⟩
  | ended result =>
    obtain ⟨hlen, hanswers, hfailed, -⟩ := hcounted
    exact ⟨hlen, hfailed, hsettles, hanswers, hgoes, habort⟩

end

/-- The settings with `UPSTREAM_RETRY_ATTEMPTS` resolved. -/
def withRetryAttempts (settings : Settings) (raw : Option JsString) : Settings :=
  { settings with retryAttempts := retryAttempts raw }

/-- Whatever the operation answers and whenever the signal is aborted. -/
theorem retries_in_budget (settings : Settings) (raw : Option JsString) (aborted : Bool)
    (randoms : Nat → Rat) {s : Retrying T}
    (hs : Reachable step (start T (withRetryAttempts settings raw) (.start T aborted randoms)) s) :
    retryAttempts raw ≤ 3 ∧ InBudget (retryAttempts raw) s :=
  ⟨retryAttempts_le raw, (hs.invariant (P := Inv (withRetryAttempts settings raw))
    (inv_start aborted randoms) fun _ _ _ h hstep => inv_step h hstep).inBudget⟩

/-! ## Sample runs -/

def sampleStart : Retrying Unit :=
  start Unit (withRetryAttempts Settings.default none) (.start Unit false fun _ => 0)

/-- The operation settles with `result`. -/
def answering (result : Except JsError Unit) : (c : RetryCommand) → Option (RetryReply Unit c)
  | .operation => some result
  | c => failing c

def connectionReset : JsError := .axios ⟨some "ECONNRESET", none⟩

theorem retries_in_budget_second : ∃ s, Reachable step sampleStart s ∧
    s.world.attempts = [some (.ok ()), some (.error connectionReset)] ∧
    s.prog = .pure (.ok ()) ∧ retryAttempts none ≤ 3 ∧ InBudget (retryAttempts none) s := by
  have hrun : ∃ s, Reachable step sampleStart s ∧
      s.world.attempts = [some (.ok ()), some (.error connectionReset)] ∧
      s.prog = .pure (.ok ()) :=
    ⟨_, ⟨[.resume failing, .resume (answering (.error connectionReset)), .resume failing,
      .resume failing, .resume failing, .resume (answering (.ok ()))], rfl⟩, rfl, rfl⟩
  obtain ⟨s, hs, hattempts, hprog⟩ := hrun
  exact ⟨s, hs, hattempts, hprog, retries_in_budget Settings.default none false _ hs⟩

def canceledError : JsError := .axios ⟨some "ERR_CANCELED", none⟩

/-- No signal is aborted, and the error of the only attempt is not passed on. -/
theorem cancel_code_replaced : ∃ s, Reachable step sampleStart s ∧ s.world.aborted = false ∧
    s.world.attempts = [some (.error canceledError)] ∧
    s.prog = .pure (.error .requestAborted) ∧ canceledError ≠ .requestAborted :=
  ⟨_, ⟨[.resume failing, .resume (answering (.error canceledError))], rfl⟩, rfl, rfl, rfl,
    fun h => JsError.noConfusion h⟩

end NewsApi.Providers.RetryBudget
