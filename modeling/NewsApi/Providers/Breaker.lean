import NewsApi.Async.Run
import NewsApi.Collections.Slots
import NewsApi.Providers.SearchSpec

/-! # Concurrent searches of one process

Any number of searches share the circuit. Between two of a search's own steps
any other event may happen: another search runs, a client disconnects, a total
deadline fires, the shutdown signal aborts, time passes. Every answer of the
provider and every order of answers is an event sequence. -/
namespace NewsApi.Providers.Breaker
open NewsApi.Async NewsApi.Collections NewsApi.Types NewsApi.Config NewsApi.Errors NewsApi.Runtime

structure Task where
  lo : Local
  prog : Prog Command Reply (Except JsError ArticleList)

structure Searches where
  sh : Shared
  tasks : List Task

inductive Event where
  | arrive (options : ArticleSearchOptions) (randoms : Nat → Rat)
  | resume (i : Nat) (answer : (c : Command) → Option (Reply c))
  | disconnect (i : Nat)
  | deadline (i : Nat)
  | shutdown
  | elapse (ms : Nat)

def Searches.initial : Searches where
  sh := .initial
  tasks := []

variable (settings : Settings) (platform : Platform)

def host : Host Command Reply View := jobHost settings false

/-- A search that is called runs up to its first suspension at once. -/
def arrive (b : Searches) (options : ArticleSearchOptions) (randoms : Nat → Rat) : Searches :=
  let (prog, v) := (host settings).advance (search settings platform options).run
    ⟨b.sh, .start b.tasks.length randoms []⟩
  { sh := v.sh, tasks := b.tasks ++ [⟨v.lo, prog⟩] }

def resumeTask (b : Searches) (i : Nat) (task : Task) (answer : (c : Command) → Option (Reply c)) :
    Option Searches :=
  ((host settings).resume answer task.prog ⟨b.sh, task.lo⟩).map fun (prog, v) =>
    { sh := v.sh, tasks := b.tasks.set i ⟨v.lo, prog⟩ }

def step (b : Searches) : Event → Option Searches
  | .arrive options randoms => some (arrive settings platform b options randoms)
  | .resume i answer => b.tasks[i]?.bind fun task => resumeTask settings b i task answer
  | .disconnect i => b.tasks[i]?.map fun task =>
      { b with tasks := b.tasks.set i { task with lo.client := true } }
  | .deadline i => b.tasks[i]?.bind fun task => (fireDeadline b.sh.clock task.lo).map fun lo =>
      { b with tasks := b.tasks.set i { task with lo := lo } }
  | .shutdown => some { b with sh.shutdown := true }
  | .elapse ms => some { b with sh.clock := b.sh.clock + ms }

/-! ## The invariant -/

/-- What is known of one search: its part of the history is legal, and its
program goes on to settle accordingly. -/
structure TaskInv (i : Nat) (task : Task) (sh : Shared) : Prop where
  own : task.lo.id = i
  legal : Legal (opsOf sh.history i)
  parked : (host settings).parked searchContract (fun r v => Settled (View.ops v) r) task.prog
    ⟨sh, task.lo⟩

structure Inv (b : Searches) : Prop where
  consistent : Consistent settings b.sh
  fresh : ∀ id, b.tasks.length ≤ id → opsOf b.sh.history id = []
  tasks : ∀ i task, b.tasks[i]? = some task → TaskInv settings i task b.sh

/-- How a step of one search changes what is shared. -/
def Own (settings : Settings) (v v' : View) : Prop :=
  v'.lo.id = v.lo.id ∧ (Consistent settings v.sh → Consistent settings v'.sh) ∧
    ∀ id, id ≠ v.lo.id → opsOf v'.sh.history id = opsOf v.sh.history id

variable {settings platform} {b b' : Searches}

theorem own_refl (v : View) : Own settings v v := ⟨rfl, id, fun _ _ => rfl⟩

theorem own_trans {v v' v'' : View} (h : Own settings v v') (h' : Own settings v' v'') :
    Own settings v v'' := by
  refine ⟨h'.1.trans h.1, h'.2.1 ∘ h.2.1, fun id hid => ?_⟩
  rw [h'.2.2 id (by rw [h.1]; exact hid), h.2.2 id hid]

theorem own_now (c : Command) (v : View) (r : Reply c) (v' : View)
    (hn : now settings c v = some (r, v')) : Own settings v v' :=
  ⟨now_id hn, fun h => h.now hn, fun _ hid => now_others hn hid⟩

theorem own_of_frame {v v' : View} (hs : v'.sh = v.sh) (hid : v'.lo.id = v.lo.id) :
    Own settings v v' :=
  ⟨hid, fun h => by rw [hs]; exact h, fun _ _ => by rw [hs]⟩

theorem own_advance {α : Type} (p : Prog Command Reply α) (v : View) :
    Own settings v ((host settings).advance p v).2 :=
  Host.advance_frame own_refl own_trans own_now
    (fun _ _ => own_of_frame issue_sh issue_id) p v

theorem own_resume {α : Type} {answer : (c : Command) → Option (Reply c)}
    {p p' : Prog Command Reply α} {v v' : View}
    (h : (host settings).resume answer p v = some (p', v')) : Own settings v v' :=
  Host.resume_frame own_refl own_trans own_now (fun _ _ => own_of_frame issue_sh issue_id)
    (fun _ _ _ _ _ hr => own_of_frame (reply_frame hr).1 (reply_frame hr).2) h

/-- A search's knowledge survives what leaves its part of the history alone. -/
theorem TaskInv.transfer {i : Nat} {task : Task} {sh sh' : Shared} {lo : Local}
    (h : TaskInv settings i task sh) (hid : lo.id = task.lo.id)
    (hops : opsOf sh'.history i = opsOf sh.history i) :
    TaskInv settings i { task with lo := lo } sh' := by
  have hi := hid.trans h.own
  have hv : View.ops ⟨sh', lo⟩ = View.ops ⟨sh, task.lo⟩ := by
    simp only [View.ops, hi, h.own, hops]
  refine ⟨hi, by rw [hops]; exact h.legal, ?_⟩
  refine Host.parked_rely h.parked hv (fun r hr => ?_) id
  rw [hv]
  exact hr

theorem Inv.initial : Inv settings .initial :=
  ⟨.initial settings, fun _ _ => rfl, fun _ _ h => nomatch h⟩

/-- What is known of all searches after search `i` has run. -/
theorem Inv.own {i : Nat} {v v' : View} {prog : Prog Command Reply (Except JsError ArticleList)}
    {tasks : List Task} (h : Inv settings b) (hsh : v.sh = b.sh) (hid : v.lo.id = i)
    (ho : Own settings v v')
    (hv : searchContract.inv v' ∧
      (host settings).parked searchContract (fun r v => Settled (View.ops v) r) prog v')
    (hself : ∀ t, tasks[i]? = some t → t = ⟨v'.lo, prog⟩)
    (hother : ∀ j, j ≠ i → tasks[j]? = b.tasks[j]?)
    (hlen : i < tasks.length ∧ b.tasks.length ≤ tasks.length) :
    Inv settings { sh := v'.sh, tasks := tasks } := by
  obtain ⟨hid', hcons, hothers⟩ := ho
  rw [hsh, hid] at hothers
  rw [hid] at hid'
  refine ⟨hcons (hsh ▸ h.consistent), ?_, ?_⟩
  · intro id hle
    change tasks.length ≤ id at hle
    rw [hothers id (by omega)]
    exact h.fresh id (by omega)
  · intro j task' hj
    by_cases hij : j = i
    · subst hij
      rw [hself task' hj]
      exact ⟨hid', by simpa only [View.ops, hid', searchContract] using hv.1, hv.2⟩
    · exact (h.tasks j task' (by rw [← hother j hij]; exact hj)).transfer rfl (hothers j hij)

/-- Events that no search runs in change no history. -/
theorem Inv.quiet {sh : Shared} {tasks : List Task} (h : Inv settings b)
    (hc : Consistent settings sh) (hh : sh.history = b.sh.history)
    (hlen : tasks.length = b.tasks.length)
    (ht : ∀ (i : Nat) (task' : Task), tasks[i]? = some task' → ∃ task, b.tasks[i]? = some task ∧
      task'.lo.id = task.lo.id ∧ task'.prog = task.prog) :
    Inv settings { sh := sh, tasks := tasks } := by
  refine ⟨hc, fun id hle => ?_, fun i task' hi => ?_⟩
  · rw [hh]
    exact h.fresh id (by rw [← hlen]; exact hle)
  · obtain ⟨task, htask, hid, hprog⟩ := ht i task' hi
    have : TaskInv settings i { task with lo := task'.lo } sh :=
      (h.tasks i task htask).transfer hid (by rw [hh])
    rw [← hprog] at this
    exact this

theorem set_lo {tasks : List Task} {i j : Nat} {task task' : Task} (lo : Local)
    (hi : tasks[i]? = some task) (hid : lo.id = task.lo.id)
    (hj : (tasks.set i { task with lo := lo })[j]? = some task') :
    ∃ t, tasks[j]? = some t ∧ task'.lo.id = t.lo.id ∧ task'.prog = t.prog := by
  rcases getElem?_set_cases hj with ⟨rfl, rfl⟩ | ⟨-, hj⟩
  · exact ⟨task, hi, hid, rfl⟩
  · exact ⟨task', hj, rfl, rfl⟩

theorem Inv.arrive (h : Inv settings b) (options : ArticleSearchOptions) (randoms : Nat → Rat) :
    Inv settings (arrive settings platform b options randoms) := by
  have hv : View.ops ⟨b.sh, .start b.tasks.length randoms []⟩ = [] :=
    h.fresh b.tasks.length (Nat.le_refl _)
  refine h.own (i := b.tasks.length) rfl rfl (own_advance _ _)
    (Host.advance_sound (wp_search hv)) ?_ ?_ ?_
  · intro t ht
    simpa using ht.symm
  · intro j hj
    rw [List.getElem?_append]
    split
    · rfl
    · rw [List.getElem?_eq_none (by simp; omega), List.getElem?_eq_none (by omega)]
  · simp

theorem Inv.step {e : Event} (h : Inv settings b) (hs : step settings platform b e = some b') :
    Inv settings b' := by
  cases e with
  | arrive options randoms => exact Option.some.inj hs ▸ h.arrive options randoms
  | resume i answer =>
    obtain ⟨task, hi, hr⟩ := Option.bind_eq_some_iff.mp hs
    obtain ⟨⟨prog, v⟩, hres, rfl⟩ := Option.map_eq_some_iff.mp hr
    have ht := h.tasks i task hi
    have hinv : searchContract.inv ⟨b.sh, task.lo⟩ := by
      simpa only [View.ops, searchContract, ht.own] using ht.legal
    have hlt : i < b.tasks.length := (List.getElem?_eq_some_iff.mp hi).1
    refine h.own rfl ht.own (own_resume hres) (Host.resume_sound hinv ht.parked hres) ?_ ?_ ?_
    · intro t hget
      rw [List.getElem?_set_self hlt] at hget
      exact (Option.some.inj hget).symm
    · intro j hj
      exact List.getElem?_set_ne (Ne.symm hj)
    · simpa using hlt
  | disconnect i =>
    obtain ⟨task, hi, rfl⟩ := Option.map_eq_some_iff.mp hs
    exact h.quiet h.consistent rfl List.length_set fun j task' hj =>
      set_lo { task.lo with client := true } hi rfl hj
  | deadline i =>
    obtain ⟨task, hi, hd⟩ := Option.bind_eq_some_iff.mp hs
    obtain ⟨lo, hlo, rfl⟩ := Option.map_eq_some_iff.mp hd
    have hid : lo.id = task.lo.id := by
      unfold fireDeadline at hlo
      split at hlo
      · cases hlo
      · split at hlo <;> cases hlo
        rfl
    exact h.quiet h.consistent rfl List.length_set fun j task' hj => set_lo lo hi hid hj
  | shutdown =>
    cases hs
    exact h.quiet ⟨h.consistent.circuit, h.consistent.checks, h.consistent.times,
      h.consistent.clock⟩ rfl rfl fun j task hj => ⟨task, hj, rfl, rfl⟩
  | elapse ms =>
    cases hs
    exact h.quiet ⟨h.consistent.circuit, h.consistent.checks, h.consistent.times,
      fun e he => Nat.le_add_right_of_le (h.consistent.clock e he)⟩ rfl rfl
      fun j task hj => ⟨task, hj, rfl, rfl⟩

theorem inv_of_reachable (hs : Reachable (step settings platform) .initial b) : Inv settings b :=
  hs.invariant .initial fun _ _ _ h hstep => h.step hstep

theorem Inv.recorded (h : Inv settings b) : Recorded settings b.sh.history := by
  refine h.consistent.recorded fun id => ?_
  by_cases hid : id < b.tasks.length
  · exact (h.tasks id _ (List.getElem?_eq_getElem hid)).legal
  · rw [h.fresh id (by omega)]
    exact .fresh

/-- How a finished search ended agrees with what it did to the circuit. -/
theorem Inv.settled {i : Nat} {task : Task} {result : Except JsError ArticleList}
    (h : Inv settings b) (hi : b.tasks[i]? = some task) (hr : task.prog = .pure result) :
    Settled (opsOf b.sh.history i) result := by
  obtain ⟨hid, -, hp⟩ := h.tasks i task hi
  rw [hr] at hp
  have hset : Settled (View.ops ⟨b.sh, task.lo⟩) result := hp
  simpa only [View.ops, hid] using hset

/-! ## Sample runs -/

def lowThreshold : Settings :=
  { Settings.default with failureThreshold := 1, failureThreshold_pos := by decide }

def sampleOptions : ArticleSearchOptions :=
  ⟨Text.js "q", 10, 1, none, none, none, none, none⟩

/-- A search is called and goes on until its request is under way. -/
def sent (i : Nat) : List Event :=
  [.arrive sampleOptions fun _ => 0, .resume i turn, .resume i turn]
where
  turn : (c : Command) → Option (Reply c)
    | .tick => some ()
    | _ => none

/-- The provider answers the request of a search. -/
def answered (i : Nat) (r : Except JsError Types.Json) : Event :=
  .resume i fun
    | .axiosGet _ => some r
    | _ => none

/-- A status that counts as a failure and is not retried. -/
def rateLimited : Except JsError Types.Json := .error (.axios ⟨none, some (429, [])⟩)

def noArticles : Except JsError Types.Json := .ok (.obj [(Text.js "articles", .arr [])])

/-- The circuit opens while search 0 is under way, search 2 probes, and then the
late failure of search 0 opens the circuit again. -/
def lateFailure : List Event :=
  sent 0 ++ sent 1 ++ [answered 1 rateLimited, .elapse 30000] ++ sent 2 ++
    [answered 0 rateLimited, .elapse 30000] ++ sent 3

/-- The circuit opens while search 0 is under way, which then succeeds. -/
def lateSuccess : List Event :=
  sent 0 ++ sent 1 ++ [answered 1 rateLimited, answered 0 noArticles] ++ sent 2

/-- The circuit opens, search 1 probes, search 2 is turned away. -/
def quietProbe : List Event :=
  sent 0 ++ [answered 0 rateLimited, .elapse 30000] ++ sent 1 ++ [.arrive sampleOptions fun _ => 0]

/-! ## Half-open exclusivity -/

/-- The probe has the circuit for itself: whoever reaches the check while a
probe is unsettled is turned away, so there is one probe at a time. A probe is
settled at the latest when its search ends, and a search that was turned away
ends with that error. -/
structure HalfOpenExclusive (s : Searches) : Prop where
  rejected : ∀ e older r i, e :: older <:+ s.sh.history → isProbe older i = true →
    e.op = .check r → Rejected r
  unique : ∀ i j, isProbe s.sh.history i = true → isProbe s.sh.history j = true → i = j
  settled : ∀ (i : Nat) task result, s.tasks[i]? = some task → task.prog = .pure result →
    isProbe s.sh.history i = false
  outcome : ∀ (i : Nat) task result error, s.tasks[i]? = some task → task.prog = .pure result →
    opsOf s.sh.history i = [.check (.error error)] → result = .error error

/-- In every run in which no search admitted with the circuit closed settles by
success or by a counted failure while a probe is unsettled, probes are
exclusive. -/
theorem half_open_exclusive {s : Searches} (hs : Reachable (step settings platform) .initial s)
    (hu : NoLateSettlement s.sh.history) : HalfOpenExclusive s := by
  have hinv := inv_of_reachable hs
  have hrec := hinv.recorded
  refine ⟨?_, ?_, ?_, ?_⟩
  · intro e older r i he hp hop
    have hsuf : older <:+ s.sh.history := (List.suffix_cons e older).trans he
    have hex := exclusive_of_noLateSettlement (hrec.suffix hsuf)
      fun e' o' he' => hu e' o' (he'.trans hsuf)
    obtain ⟨hf, ho, -⟩ := hex i hp
    exact rejected_of_assert (hrec.checks e older r he hop) (.inl ⟨hf, ho⟩)
  · intro i j hi hj
    exact (exclusive_of_noLateSettlement hrec hu j hj).2.2 i hi
  · intro i task result hi hr
    rw [Bool.eq_false_iff]
    intro hp
    have := hinv.settled hi hr
    rw [isProbe_iff.mp hp] at this
    exact nomatch this.1
  · intro i task result error hi hr hops
    have := hinv.settled hi hr
    rwa [hops] at this

theorem quietProbe_history :
    (run (step lowThreshold .plain) .initial quietProbe).map (fun s => s.sh.history) =
      some [⟨2, 30000, .check (.error (circuitOpenError lowThreshold ⟨1, none, true⟩ 30000))⟩,
        ⟨1, 30000, .check (.ok .halfOpen)⟩, ⟨0, 0, .failure⟩, ⟨0, 0, .check (.ok .closed)⟩] := rfl

/-- The second search of the sample run is turned away while the first probes. -/
theorem half_open_exclusive_quietProbe :
    ∃ s, run (step lowThreshold .plain) .initial quietProbe = some s ∧
      isProbe s.sh.history 1 = true ∧ HalfOpenExclusive s := by
  obtain ⟨s, hs, hh⟩ := Option.map_eq_some_iff.mp quietProbe_history
  refine ⟨s, hs, by rw [hh]; rfl, half_open_exclusive ⟨_, hs⟩ ?_⟩
  rw [hh]
  intro e older he hop _ id
  simp only [List.suffix_cons_iff, List.cons.injEq, List.suffix_nil, reduceCtorEq,
    or_false] at he
  rcases he with ⟨rfl, -⟩ | ⟨rfl, -⟩ | ⟨rfl, rfl⟩ | ⟨rfl, -⟩
  · simp at hop
  · simp at hop
  · by_cases hid : 0 = id <;> simp [isProbe, opsOf, hid]
  · simp at hop

/-- Two unsettled probes at once: searches 2 and 3. -/
theorem half_open_late_failure :
    ¬∀ s, Reachable (step lowThreshold .plain) .initial s → HalfOpenExclusive s := by
  intro h
  obtain ⟨s, hs, hp⟩ := Reachable.of_run
    (fun s => isProbe s.sh.history 2 && isProbe s.sh.history 3) lateFailure
    (show (run (step lowThreshold .plain) .initial lateFailure).map _ = _ by decide)
  obtain ⟨h2, h3⟩ := Bool.and_eq_true_iff.mp hp
  exact absurd ((h s hs).unique 2 3 h2 h3) (by decide)

/-! ## Cooldowns -/

/-- From an opening at time `t` on, checks before `t + cooldown` are rejected. -/
def CooldownKept (settings : Settings) (s : Searches) : Prop :=
  ∀ e older, e :: older <:+ s.sh.history → Opens settings e older →
    ∀ e' older' r, e' :: older' <:+ s.sh.history → e :: older <:+ older' → e'.op = .check r →
      e'.time < e.time + settings.cooldownMs → Rejected r

/-- In every run in which no search closes the circuit while it is open and its
cooldown is running, an opened circuit rejects for its whole cooldown. -/
theorem cooldown_kept {s : Searches} (hs : Reachable (step settings platform) .initial s)
    (hc : NoEarlyClose settings s.sh.history) : CooldownKept settings s := by
  intro e older _ ho e' older' r he' hs' hop hlt
  have hrec := (inv_of_reachable hs).recorded
  have hsuf : older' <:+ s.sh.history := (List.suffix_cons e' older').trans he'
  obtain ⟨t, ht, het⟩ := stays_open ho hs' (hrec.suffix hsuf)
    (fun e'' o'' t h => hc e'' o'' t (h.trans hsuf)) (hrec.times e' older' he') hlt
  exact rejected_of_assert (hrec.checks e' older' r he' hop) (.inr ⟨t, ht, by omega⟩)

theorem cooldown_kept_quietProbe :
    ∃ s, run (step lowThreshold .plain) .initial quietProbe = some s ∧
      CooldownKept lowThreshold s := by
  obtain ⟨s, hs, hh⟩ := Option.map_eq_some_iff.mp quietProbe_history
  refine ⟨s, hs, cooldown_kept ⟨_, hs⟩ ?_⟩
  rw [hh]
  intro e older t he hop _
  have hmem := he.subset List.mem_cons_self
  simp only [List.mem_cons, List.not_mem_nil, or_false] at hmem
  rcases hmem with rfl | rfl | rfl | rfl <;> cases hop

theorem lateSuccess_history :
    (run (step lowThreshold .plain) .initial lateSuccess).map (fun s => s.sh.history) =
      some [⟨2, 0, .check (.ok .closed)⟩, ⟨0, 0, .close⟩, ⟨1, 0, .failure⟩,
        ⟨1, 0, .check (.ok .closed)⟩, ⟨0, 0, .check (.ok .closed)⟩] := rfl

/-- Search 2 is admitted in the millisecond in which the circuit has opened. -/
theorem cooldown_late_success :
    ¬∀ s, Reachable (step lowThreshold .plain) .initial s →
      CooldownKept lowThreshold s := by
  intro h
  obtain ⟨s, hs, hh⟩ := Option.map_eq_some_iff.mp lateSuccess_history
  have hkept := h s ⟨_, hs⟩
  unfold CooldownKept at hkept
  rw [hh] at hkept
  obtain ⟨error, he, -⟩ := hkept ⟨1, 0, .failure⟩ _ ⟨[_, _], rfl⟩ (.inl ⟨rfl, rfl, by decide⟩)
    ⟨2, 0, .check (.ok .closed)⟩ _ (.ok .closed) ⟨[], rfl⟩ ⟨[_], rfl⟩ rfl (by decide)
  cases he

end NewsApi.Providers.Breaker
