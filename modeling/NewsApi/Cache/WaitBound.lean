import NewsApi.Async.Host
import NewsApi.Async.Run
import NewsApi.Cache.CoordinatorCommands

/-! # The bounded wait

A coordination whose lease is always held by another and whose reads never find
a value. Its clock never goes back, and a timer takes at least its delay. The
program is refined by a machine of five stages (`Moves`), on which the bound is
an invariant: every round but the last sleeps, a sleep takes at least one
millisecond, and none begins at the deadline. -/
namespace NewsApi.Cache.WaitBound
open NewsApi.Async NewsApi.Text NewsApi.Errors NewsApi.Config

inductive LogEntry where
  | acquireSent
  | sleepScheduled (start delayMs : Nat)
  | loadCalled
  deriving DecidableEq

structure World where
  clock : Nat
  uuid : JsString
  randoms : Nat → Rat
  drawn : Nat
  /-- when the timer that runs ends at the earliest -/
  due : Nat
  /-- newest first -/
  log : List LogEntry

variable {T : Type}

def now : (c : CoordinatorCommand) → World → Option (CoordinatorReply T c × World)
  | .aborted, s => some (false, s)
  | .dateNow, s => some (s.clock, s)
  | .random, s => some (s.randoms s.drawn, { s with drawn := s.drawn + 1 })
  | .randomUUID, s => some (s.uuid, s)
  | .startHeartbeat _ _ _, s => some ((), s)
  | .stopHeartbeat, s => some ((), s)
  | .setTimeout _, _ | .tryAcquireLease _ _ _, _ | .releaseLease _ _, _ | .readFresh, _
  | .load, _ => none

def issue : CoordinatorCommand → World → World
  | .tryAcquireLease _ _ _, s => { s with log := .acquireSent :: s.log }
  | .setTimeout delayMs, s =>
    { s with due := s.clock + delayMs, log := .sleepScheduled s.clock delayMs :: s.log }
  | .load, s => { s with log := .loadCalled :: s.log }
  | _, s => s

/-- Not acquired, and no fresh value; the load may settle in any way. -/
def reply : (c : CoordinatorCommand) → CoordinatorReply T c → World → Option World
  | .tryAcquireLease _ _ _, .ok false, s => some s
  | .readFresh, .ok none, s => some s
  | .setTimeout _, .ok (), s => if s.due ≤ s.clock then some s else none
  | .load, _, s => some s
  | _, _, _ => none

def host (T : Type) : Host CoordinatorCommand (CoordinatorReply T) World where
  now := now
  issue := issue
  reply := reply

/-! ## Runs -/

abbrev Program (T : Type) : Type 1 :=
  Prog CoordinatorCommand (CoordinatorReply T) (Except JsError (CacheMissCoordinationResult T))

structure Waiter (T : Type) where
  world : World
  prog : Program T
  /-- how often the program has gone on -/
  answers : Nat

inductive Event (T : Type) where
  | resume (answer : (c : CoordinatorCommand) → Option (CoordinatorReply T c))
  | elapse (ms : Nat)

/-- `coordinateCacheMiss` has been called and has run to the head of its loop. -/
def start (T : Type) (settings : Settings) (platform : Platform) (cacheKey : JsString)
    (world : World) : Waiter T :=
  let (prog, world) := (host T).advance (coordination T settings platform cacheKey) world
  { world := world, prog := prog, answers := 0 }

def step (s : Waiter T) : Event T → Option (Waiter T)
  | .resume answer => ((host T).resume answer s.prog s.world).map fun (prog, world) =>
      { world := world, prog := prog, answers := s.answers + 1 }
  | .elapse ms => some { s with world.clock := s.world.clock + ms }

/-! ## The stages of a round -/

section
variable (settings : Settings) (key owner : JsString) (waitDeadline : Nat)

/-- The loop, at its head. -/
def loopProg (T : Type) : Program T :=
  (AsyncM.loop () fun _ => coordinationRound (coordinatorRuntime T) settings (leaseStore T) key
    owner waitDeadline (readFresh T) (load T)).run

/-- `Math.min(waitDelayMs(), remainingMs)` -/
def delayAt (w : World) : Nat :=
  min (waitDelayMs settings.cacheLeasePollMs (w.randoms w.drawn)) (waitDeadline - w.clock)

inductive Stage where
  | head
  | acquiring
  | reading
  | sleeping
  | loading
  | ended

/-- What a round does at each of its suspensions. -/
inductive Moves : Stage → World → Stage → World → Prop
  | ask (w : World) :
      Moves .head w .acquiring (issue (.tryAcquireLease key owner settings.cacheLeaseTtlMs) w)
  | refused (w : World) : Moves .acquiring w .reading w
  | late {w : World} (h : waitDeadline ≤ w.clock) : Moves .reading w .loading (issue .load w)
  | early {w : World} (h : w.clock < waitDeadline) : Moves .reading w .sleeping
      (issue (.setTimeout (delayAt settings waitDeadline w)) { w with drawn := w.drawn + 1 })
  | woken {w : World} (h : w.due ≤ w.clock) : Moves .sleeping w .head w
  | settled (w : World) : Moves .loading w .ended w

/-! ## The program at each stage -/

def AtLoad (p : Program T) : Prop :=
  ∃ k, p = .call .load k ∧ ∀ r w, ∃ result, (host T).advance (k r) w = (.pure result, w)

def AtSleep (p : Program T) : Prop :=
  ∃ delayMs k, p = .call (.setTimeout delayMs) k ∧
    ∀ w, (host T).advance (k (.ok ())) w = (loopProg settings key owner waitDeadline T, w)

def AtRead (p : Program T) : Prop :=
  ∃ k, p = .call .readFresh k ∧ ∀ w,
    (waitDeadline ≤ w.clock →
      ∃ q, (host T).advance (k (.ok none)) w = (q, issue .load w) ∧ AtLoad q) ∧
    (w.clock < waitDeadline →
      ∃ q, (host T).advance (k (.ok none)) w =
        (q, issue (.setTimeout (delayAt settings waitDeadline w)) { w with drawn := w.drawn + 1 }) ∧
        AtSleep settings key owner waitDeadline q)

def AtAcquire (p : Program T) : Prop :=
  ∃ k, p = .call (.tryAcquireLease key owner settings.cacheLeaseTtlMs) k ∧
    ∀ w, ∃ q, (host T).advance (k (.ok false)) w = (q, w) ∧
      AtRead settings key owner waitDeadline q

def AtStage (p : Program T) : Stage → Prop
  | .head => p = loopProg settings key owner waitDeadline T
  | .acquiring => AtAcquire settings key owner waitDeadline p
  | .reading => AtRead settings key owner waitDeadline p
  | .sleeping => AtSleep settings key owner waitDeadline p
  | .loading => AtLoad p
  | .ended => ∃ result, p = .pure result

/-- A round after a read without a value. -/
def afterMiss (T : Type) (now : Nat) :
    AsyncM JsError CoordinatorCommand (CoordinatorReply T) (Unit ⊕ CacheMissCoordinationResult T) :=
  if waitDeadline ≤ now then .inr <$> loadWithoutCoordination (load T) .upstream
  else do
    let random ← liftM (coordinatorRuntime T).random
    sleep (coordinatorRuntime T)
      (min (waitDelayMs settings.cacheLeasePollMs random) (waitDeadline - now))
    pure (.inl ())

/-- The rest of a round, and the loop after it. -/
def finish (x : AsyncM JsError CoordinatorCommand (CoordinatorReply T)
    (Unit ⊕ CacheMissCoordinationResult T)) : Program T :=
  (x.run.bind fun r => .pure (AsyncM.roundOf r)).bind fun
    | .inl _ => loopProg settings key owner waitDeadline T
    | .inr g => .pure g

variable {settings key owner waitDeadline}

theorem afterMiss_late {w : World} (h : waitDeadline ≤ w.clock) :
    ∃ q, (host T).advance (finish settings key owner waitDeadline
      (afterMiss settings waitDeadline T w.clock)) w = (q, issue .load w) ∧ AtLoad q := by
  rw [afterMiss, if_pos h]
  refine ⟨_, rfl, _, rfl, fun r w1 => ?_⟩
  cases r <;> exact ⟨_, rfl⟩

theorem afterMiss_early {w : World} (h : w.clock < waitDeadline) :
    ∃ q, (host T).advance (finish settings key owner waitDeadline
      (afterMiss settings waitDeadline T w.clock)) w =
      (q, issue (.setTimeout (delayAt settings waitDeadline w)) { w with drawn := w.drawn + 1 }) ∧
      AtSleep settings key owner waitDeadline q := by
  rw [afterMiss, if_neg (Nat.not_le.mpr h)]
  exact ⟨_, rfl, _, _, rfl, fun w1 => rfl⟩

section
variable {α : Type} {g : α → AsyncM JsError CoordinatorCommand (CoordinatorReply T)
  (Unit ⊕ CacheMissCoordinationResult T)}

theorem advance_acquireLease {g : Option Bool → AsyncM JsError CoordinatorCommand
    (CoordinatorReply T) (Unit ⊕ CacheMissCoordinationResult T)} (ttlMs : Nat) (w : World) :
    ∃ k, (host T).advance (finish settings key owner waitDeadline
        (acquireLease (coordinatorRuntime T) (leaseStore T) key owner ttlMs >>= g)) w =
        (.call (.tryAcquireLease key owner ttlMs) k,
          issue (.tryAcquireLease key owner ttlMs) w) ∧
      ∀ w, (host T).advance (k (.ok false)) w =
        (host T).advance (finish settings key owner waitDeadline (g (some false))) w := by
  refine ⟨_, rfl, ?_⟩
  intro w
  rfl

theorem advance_pollFresh {g : Option (Option T) → AsyncM JsError CoordinatorCommand
    (CoordinatorReply T) (Unit ⊕ CacheMissCoordinationResult T)} (w : World) :
    ∃ k, (host T).advance (finish settings key owner waitDeadline
        (pollFresh (coordinatorRuntime T) (readFresh T) >>= g)) w = (.call .readFresh k, w) ∧
      ∀ w, (host T).advance (k (.ok none)) w =
        (host T).advance (finish settings key owner waitDeadline (g (some none))) w := by
  refine ⟨_, rfl, ?_⟩
  intro w
  rfl

theorem advance_dateNow {g : Nat → AsyncM JsError CoordinatorCommand
    (CoordinatorReply T) (Unit ⊕ CacheMissCoordinationResult T)} (w : World) :
    (host T).advance (finish settings key owner waitDeadline
        (liftM (coordinatorRuntime T).dateNow >>= g)) w =
      (host T).advance (finish settings key owner waitDeadline (g w.clock)) w := rfl

theorem resume_head (answer : (c : CoordinatorCommand) → Option (CoordinatorReply T c))
    (w : World) : (host T).resume answer (loopProg settings key owner waitDeadline T) w =
      some ((host T).advance (finish settings key owner waitDeadline
        (coordinationRound (coordinatorRuntime T) settings (leaseStore T) key owner waitDeadline
          (readFresh T) (load T))) w) := by
  refine congrArg (fun p => some ((host T).advance p w)) ?_
  refine congrArg (Prog.bind _) (funext fun r => ?_)
  cases r <;> rfl

/-- A round goes through its stages. -/
theorem round_stages (answer : (c : CoordinatorCommand) → Option (CoordinatorReply T c))
    (w : World) : ∃ q, (host T).resume answer (loopProg settings key owner waitDeadline T) w =
      some (q, issue (.tryAcquireLease key owner settings.cacheLeaseTtlMs) w) ∧
      AtAcquire settings key owner waitDeadline q := by
  obtain ⟨k, hacquire, hrefused⟩ := advance_acquireLease settings.cacheLeaseTtlMs w
  refine ⟨_, (resume_head answer w).trans (congrArg some hacquire), k, rfl, fun w1 => ?_⟩
  obtain ⟨k1, hread, hmiss⟩ := advance_pollFresh w1
  refine ⟨_, (hrefused w1).trans hread, k1, rfl, fun w2 => ?_⟩
  rw [hmiss w2, advance_dateNow]
  exact ⟨afterMiss_late, afterMiss_early⟩

end

/-- The machine of the stages simulates the program. -/
theorem resume_moves {answer : (c : CoordinatorCommand) → Option (CoordinatorReply T c)}
    {stage : Stage} {p p' : Program T} {w w' : World}
    (hp : AtStage settings key owner waitDeadline p stage)
    (hr : (host T).resume answer p w = some (p', w')) :
    ∃ stage', Moves settings key owner waitDeadline stage w stage' w' ∧
      AtStage settings key owner waitDeadline p' stage' := by
  cases stage with
  | head =>
    obtain ⟨q, hq, hat⟩ := round_stages answer w
    rw [show p = _ from hp, hq] at hr
    cases hr
    exact ⟨.acquiring, .ask w, hat⟩
  | acquiring =>
    obtain ⟨k, rfl, hk⟩ := hp
    obtain ⟨r, -, w1, hw1, he⟩ := Host.resume_call hr
    rcases r with e | _ | _
    · cases hw1
    · cases hw1
      obtain ⟨q, hq, hat⟩ := hk w
      cases he.symm.trans hq
      exact ⟨.reading, .refused w, hat⟩
    · cases hw1
  | reading =>
    obtain ⟨k, rfl, hk⟩ := hp
    obtain ⟨r, -, w1, hw1, he⟩ := Host.resume_call hr
    rcases r with e | _ | value
    · cases hw1
    · cases hw1
      rcases Nat.lt_or_ge w.clock waitDeadline with hearly | hlate
      · obtain ⟨q, hq, hat⟩ := (hk w).2 hearly
        cases he.symm.trans hq
        exact ⟨.sleeping, .early hearly, hat⟩
      · obtain ⟨q, hq, hat⟩ := (hk w).1 hlate
        cases he.symm.trans hq
        exact ⟨.loading, .late hlate, hat⟩
    · cases hw1
  | sleeping =>
    obtain ⟨delayMs, k, rfl, hk⟩ := hp
    obtain ⟨r, -, w1, hw1, he⟩ := Host.resume_call hr
    rcases r with e | ⟨⟩
    · cases hw1
    · obtain ⟨hdue, rfl⟩ : w.due ≤ w.clock ∧ w = w1 := by simpa [host, reply] using hw1
      cases he.symm.trans (hk w)
      exact ⟨.head, .woken hdue, rfl⟩
  | loading =>
    obtain ⟨k, rfl, hk⟩ := hp
    obtain ⟨r, -, w1, hw1, he⟩ := Host.resume_call hr
    cases hw1
    obtain ⟨result, hq⟩ := hk r w
    cases he.symm.trans hq
    exact ⟨.ended, .settled w, result, rfl⟩
  | ended =>
    obtain ⟨result, rfl⟩ := hp
    cases hr

/-- Not acquired, nothing fresh, and the timer ends. -/
def unlucky : (c : CoordinatorCommand) → Option (CoordinatorReply T c)
  | .tryAcquireLease _ _ _ => some (.ok false)
  | .readFresh => some (.ok none)
  | .setTimeout _ => some (.ok ())
  | _ => none

/-- The machine goes on unless it waits for the load. -/
theorem resume_unlucky {stage : Stage} {p : Program T} {w : World}
    (hp : AtStage settings key owner waitDeadline p stage) (hload : stage ≠ .loading)
    (hend : stage ≠ .ended) (hdue : w.due ≤ w.clock) :
    ((host T).resume unlucky p w).isSome = true := by
  cases stage with
  | head =>
    obtain ⟨q, hq, -⟩ := round_stages unlucky w
    rw [show p = _ from hp, hq]
    rfl
  | acquiring => obtain ⟨k, rfl, -⟩ := hp; rfl
  | reading => obtain ⟨k, rfl, -⟩ := hp; rfl
  | sleeping =>
    obtain ⟨delayMs, k, rfl, -⟩ := hp
    simp [Host.resume, unlucky, host, reply, hdue]
  | loading => exact absurd rfl hload
  | ended => exact absurd rfl hend

end

/-! ## The bound -/

def acquires (log : List LogEntry) : Nat := log.count .acquireSent

def loads (log : List LogEntry) : Nat := log.count .loadCalled

/-- Rounds begun, answers and clock at a stage of a wait of `waitMs` from `startedAt`. -/
def Counted (startedAt waitMs answers : Nat) (w : World) : Stage → Prop
  | .head => answers = 4 * acquires w.log ∧ acquires w.log ≤ waitMs ∧
      startedAt + acquires w.log ≤ w.clock ∧ loads w.log = 0
  | .acquiring => answers + 3 = 4 * acquires w.log ∧ acquires w.log ≤ waitMs + 1 ∧
      startedAt + acquires w.log ≤ w.clock + 1 ∧ loads w.log = 0
  | .reading => answers + 2 = 4 * acquires w.log ∧ acquires w.log ≤ waitMs + 1 ∧
      startedAt + acquires w.log ≤ w.clock + 1 ∧ loads w.log = 0
  | .sleeping => answers + 1 = 4 * acquires w.log ∧ acquires w.log ≤ waitMs ∧
      startedAt + acquires w.log ≤ w.due ∧ loads w.log = 0
  | .loading | .ended => acquires w.log ≤ waitMs + 1 ∧
      ∃ older, w.log = .loadCalled :: older ∧ loads older = 0

structure Bound (startedAt waitMs answers : Nat) (w : World) (stage : Stage) : Prop where
  counted : Counted startedAt waitMs answers w stage
  sleeps : ∀ start delayMs, .sleepScheduled start delayMs ∈ w.log →
    start + delayMs ≤ startedAt + waitMs

section
variable {settings : Settings} {key owner : JsString} {startedAt waitMs answers : Nat}

variable (settings) in
theorem delayAt_bounds {waitDeadline : Nat} {w : World} (h : w.clock < waitDeadline) :
    0 < delayAt settings waitDeadline w ∧
      w.clock + delayAt settings waitDeadline w ≤ waitDeadline := by
  unfold delayAt waitDelayMs Utils.jittered
  omega

theorem Bound.moves {stage stage' : Stage} {w w' : World}
    (h : Bound startedAt waitMs answers w stage)
    (hm : Moves settings key owner (startedAt + waitMs) stage w stage' w') :
    Bound startedAt waitMs (answers + 1) w' stage' := by
  obtain ⟨hcounted, hsleeps⟩ := h
  cases hm with
  | ask =>
    refine ⟨?_, fun start delayMs hmem => hsleeps start delayMs (by simpa [issue] using hmem)⟩
    simp only [Counted, acquires, loads, issue, List.count_cons] at hcounted ⊢
    simp
    omega
  | refused =>
    refine ⟨?_, hsleeps⟩
    simp only [Counted] at hcounted ⊢
    omega
  | late hlate =>
    refine ⟨?_, fun start delayMs hmem => hsleeps start delayMs (by simpa [issue] using hmem)⟩
    simp only [Counted, acquires, loads, issue, List.count_cons] at hcounted ⊢
    exact ⟨by simpa using hcounted.2.1, _, rfl, hcounted.2.2.2⟩
  | early hearly =>
    obtain ⟨hpos, hend⟩ := delayAt_bounds settings hearly
    refine ⟨?_, fun start delayMs hmem => ?_⟩
    · simp only [Counted, acquires, loads, issue, List.count_cons] at hcounted ⊢
      simp
      omega
    · simp only [issue, List.mem_cons, LogEntry.sleepScheduled.injEq] at hmem
      rcases hmem with ⟨rfl, rfl⟩ | hmem
      · exact hend
      · exact hsleeps start delayMs hmem
  | woken hdue =>
    refine ⟨?_, hsleeps⟩
    simp only [Counted] at hcounted ⊢
    omega
  | settled => exact ⟨hcounted, hsleeps⟩

theorem Bound.elapse {stage : Stage} {w : World} (h : Bound startedAt waitMs answers w stage)
    (ms : Nat) : Bound startedAt waitMs answers { w with clock := w.clock + ms } stage := by
  refine ⟨?_, h.sleeps⟩
  have hcounted := h.counted
  cases stage <;> simp only [Counted] at hcounted ⊢
  case loading => exact hcounted
  case ended => exact hcounted
  all_goals omega

end

/-! ## Every run -/

def World.start (clock : Nat) (uuid : JsString) (randoms : Nat → Rat) : World where
  clock := clock
  uuid := uuid
  randoms := randoms
  drawn := 0
  due := 0
  log := []

section
variable {settings : Settings} {platform : Platform} {cacheKey uuid : JsString}
  {startedAt : Nat} {randoms : Nat → Rat}

/-- What is known of a waiting coordination. -/
def Inv (settings : Settings) (key owner : JsString) (startedAt : Nat) (s : Waiter T) : Prop :=
  ∃ stage, AtStage settings key owner (startedAt + settings.cacheLeaseWaitMs) s.prog stage ∧
    Bound startedAt settings.cacheLeaseWaitMs s.answers s.world stage

theorem inv_start : Inv settings (leaseKey platform cacheKey) uuid startedAt
    (start T settings platform cacheKey (World.start startedAt uuid randoms)) := by
  have hnone : ∀ e, (World.start startedAt uuid randoms).log.count e = 0 := fun e => rfl
  refine ⟨.head, rfl, ⟨?_, ?_, ?_, hnone _⟩, ?_⟩
  · rfl
  · exact Nat.zero_le _
  · exact Nat.le_refl startedAt
  · intro start delayMs hmem
    cases hmem

theorem inv_step {key owner : JsString} {s s' : Waiter T} {e : Event T}
    (h : Inv settings key owner startedAt s) (hs : step s e = some s') :
    Inv settings key owner startedAt s' := by
  obtain ⟨stage, hat, hbound⟩ := h
  cases e with
  | resume answer =>
    obtain ⟨⟨prog, world⟩, hr, rfl⟩ := Option.map_eq_some_iff.mp hs
    obtain ⟨stage', hmoves, hat'⟩ := resume_moves hat hr
    exact ⟨stage', hat', hbound.moves hmoves⟩
  | elapse ms =>
    cases hs
    exact ⟨stage, hat, hbound.elapse ms⟩

/-- A wait of `waitMs` from `startedAt`: a bounded number of attempts, no sleep
beyond the deadline, and after so many answers one load, which is the last that
is done. Before it the coordination can always go on. -/
structure WaitsBounded (startedAt waitMs : Nat) (s : Waiter T) : Prop where
  attempts : acquires s.world.log ≤ waitMs + 1
  sleeps : ∀ start delayMs, .sleepScheduled start delayMs ∈ s.world.log →
    start + delayMs ≤ startedAt + waitMs
  loads : loads s.world.log = 0 ∨
    ∃ older, s.world.log = .loadCalled :: older ∧ WaitBound.loads older = 0
  loadReached : 4 * waitMs + 3 ≤ s.answers → WaitBound.loads s.world.log = 1
  goesOn : WaitBound.loads s.world.log = 0 →
    ∃ ms s', run step s [.elapse ms, .resume unlucky] = some s'

theorem Inv.waitsBounded {key owner : JsString} {s : Waiter T}
    (h : Inv settings key owner startedAt s) :
    WaitsBounded startedAt settings.cacheLeaseWaitMs s := by
  obtain ⟨stage, hat, hcounted, hsleeps⟩ := h
  have hone : ∀ {older : List LogEntry}, WaitBound.loads older = 0 →
      WaitBound.loads (.loadCalled :: older) = 1 := by
    intro older hnone
    simpa [WaitBound.loads] using hnone
  have hgoes : stage ≠ .loading → stage ≠ .ended →
      ∃ ms s', run step s [.elapse ms, .resume unlucky] = some s' := by
    intro hload hend
    have hdue : s.world.due ≤ s.world.clock + s.world.due := Nat.le_add_left _ _
    obtain ⟨next, hnext⟩ := Option.isSome_iff_exists.mp (resume_unlucky
      (w := { s.world with clock := s.world.clock + s.world.due }) hat hload hend hdue)
    refine ⟨s.world.due, { world := next.2, prog := next.1, answers := s.answers + 1 }, ?_⟩
    simp [run, step, hnext]
  cases stage with
  | loading | ended =>
    obtain ⟨hattempts, older, hlog, hnone⟩ := hcounted
    refine ⟨hattempts, hsleeps, .inr ⟨older, hlog, hnone⟩, fun _ => ?_, fun hzero => ?_⟩
    · rw [hlog]
      exact hone hnone
    · rw [hlog, hone hnone] at hzero
      cases hzero
  | head | acquiring | reading | sleeping =>
    simp only [Counted] at hcounted
    exact ⟨by omega, hsleeps, .inl hcounted.2.2.2, fun hmany => by omega,
      fun _ => hgoes (by simp) (by simp)⟩

/-- The wait for another's lease is bounded, whatever the jitter and the poll
setting are and however slow the answers come. -/
theorem wait_bounded {s : Waiter T} (hs : Reachable step (start T settings platform cacheKey
    (World.start startedAt uuid randoms)) s) :
    WaitsBounded startedAt settings.cacheLeaseWaitMs s :=
  (hs.invariant (P := Inv settings (leaseKey platform cacheKey) uuid startedAt) inv_start
    fun _ _ _ h hstep => inv_step h hstep).waitsBounded

end

def sampleStart : Waiter Unit :=
  start Unit Settings.default .plain (js "k") (World.start 0 (js "a") fun _ => 0)

/-- The wait is over by the time the first read is answered. -/
def overtaken : List (Event Unit) :=
  [.resume unlucky, .resume unlucky, .elapse 750, .resume unlucky]

theorem wait_bounded_overtaken : ∃ s, run step sampleStart overtaken = some s ∧
    s.world.log = [.loadCalled, .acquireSent] ∧ WaitsBounded 0 750 s := by
  have hrun : (run step sampleStart overtaken).map (fun s => s.world.log) =
      some [.loadCalled, .acquireSent] := rfl
  obtain ⟨s, hs, hlog⟩ := Option.map_eq_some_iff.mp hrun
  exact ⟨s, hs, hlog, wait_bounded ⟨_, hs⟩⟩

end NewsApi.Cache.WaitBound
