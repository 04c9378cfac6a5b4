import Mathlib.Data.List.Nodup
import Mathlib.Data.List.Range
import NewsApi.Collections.Slots
import NewsApi.Redis.CommandRunner

/-! # The calls that wait for the client

A call waits exactly as long as it has a timer and a listener for each event. -/
namespace NewsApi.Redis.CommandRunner
open NewsApi.Async NewsApi.Collections

variable {ε α : Type} {s t : State ε α} {i : Nat} {c : Call ε α}

/-! ## The waiting calls -/

def waiting (calls : List (Call ε α)) : List Nat :=
  (List.range calls.length).filter fun i => calls[i]?.any Call.isWaiting

def State.waiting (s : State ε α) : List Nat := CommandRunner.waiting s.calls

theorem mem_waiting {calls : List (Call ε α)} :
    i ∈ waiting calls ↔ ∃ c, calls[i]? = some c ∧ c.settlements = [] := by
  simp only [waiting, List.mem_filter, List.mem_range, Option.any_eq_true, Call.isWaiting,
    List.isEmpty_iff]
  refine and_iff_right_of_imp ?_
  rintro ⟨c, hc, -⟩
  exact (List.getElem?_eq_some_iff.mp hc).1

theorem nodup_waiting (calls : List (Call ε α)) : (waiting calls).Nodup :=
  List.nodup_range.filter _

theorem waiting_append (calls : List (Call ε α)) (c : Call ε α) :
    waiting (calls ++ [c]) = waiting calls ++ if c.isWaiting then [calls.length] else [] := by
  have hold : ∀ i ∈ List.range calls.length,
      (calls ++ [c])[i]?.any Call.isWaiting = calls[i]?.any Call.isWaiting := by
    intro i hi
    rw [List.getElem?_append_left (List.mem_range.mp hi)]
  rw [waiting, List.length_append, List.length_singleton, List.range_succ, List.filter_append,
    List.filter_congr hold, waiting]
  simp [List.filter_singleton]

theorem length_waiting (calls : List (Call ε α)) :
    (waiting calls).length = calls.countP Call.isWaiting := by
  induction calls using List.reverseRecOn with
  | nil => rfl
  | append_singleton calls c ih =>
    rw [waiting_append, List.length_append, ih, List.countP_append]
    cases hc : c.isWaiting <;> simp [hc]

/-- A change of one call that does not settle it. -/
theorem waiting_modify {calls : List (Call ε α)} {f : Call ε α → Call ε α}
    (hf : ∀ c, calls[i]? = some c → (f c).isWaiting = c.isWaiting) :
    waiting (calls.modify i f) = waiting calls := by
  rw [waiting, List.length_modify, waiting]
  refine List.filter_congr fun j _ => ?_
  rw [List.getElem?_modify]
  by_cases hij : i = j
  · subst hij
    cases hc : calls[i]? with
    | none => simp
    | some c => simp [hf c hc]
  · simp [hij]

/-- A call that settles waits no longer. -/
theorem waiting_settled {calls : List (Call ε α)} {f : Call ε α → Call ε α}
    (hf : ∀ c, calls[i]? = some c → (f c).isWaiting = false) :
    waiting (calls.modify i f) = (waiting calls).filter fun j => j ≠ i := by
  rw [waiting, List.length_modify, waiting, List.filter_filter]
  refine List.filter_congr fun j _ => ?_
  rw [List.getElem?_modify]
  by_cases hij : i = j
  · subst hij
    cases hc : calls[i]? with
    | none => simp
    | some c => simp [hf c hc]
  · simp [hij, Ne.symm hij]

/-! ## Their listeners -/

def listener : ClientEvent → Nat → Closure
  | .ready => .onReady
  | .ended => .onEnd

/-- The call whose listener for the event this is. -/
def callOf : ClientEvent → Closure → Option Nat
  | .ready, .onReady call => some call
  | .ended, .onEnd call => some call
  | _, _ => none

theorem callOf_eq_some {e : ClientEvent} {k : Closure} :
    callOf e k = some i ↔ k = listener e i := by
  cases e <;> cases k <;> simp [callOf, listener]

theorem callOf_listener (e e' : ClientEvent) (i : Nat) :
    callOf e (listener e' i) = if e = e' then some i else none := by
  cases e <;> cases e' <;> rfl

@[simp] theorem callOf_other (e : ClientEvent) (id : Nat) : callOf e (.other id) = none := by
  cases e <;> rfl

/-- The listeners for each event are those of the given calls. -/
def Heard (calls : ClientEvent → List Nat) (client : Emitter ClientEvent Closure) : Prop :=
  ∀ e e', client.heard (callOf e) e' = if e' = e then calls e else []

section
variable {calls : ClientEvent → List Nat} {client client' : Emitter ClientEvent Closure}

theorem Heard.nodup (h : Heard calls client) (hcalls : ∀ e, (calls e).Nodup)
    (e e' : ClientEvent) : (client.heard (callOf e) e').Nodup := by
  rw [h]
  split
  · exact hcalls e
  · exact List.nodup_nil

theorem Heard.listens (h : Heard calls client) {e e' : ClientEvent} :
    (∃ r ∈ client.listeners e', r.listener = listener e i) ↔ e' = e ∧ i ∈ calls e := by
  have hheard : (∃ r ∈ client.listeners e', r.listener = listener e i) ↔
      i ∈ client.heard (callOf e) e' := by
    simp only [Emitter.heard, List.mem_filterMap, callOf_eq_some]
  rw [hheard, h]
  by_cases he : e' = e <;> simp [he]

theorem Heard.once (h : Heard calls client) (e : ClientEvent) (i : Nat) :
    Heard (Function.update calls e (calls e ++ [i])) (client.once e (listener e i)) := by
  intro e1 e2
  rw [Emitter.once, Emitter.heard_add, h, callOf_listener]
  by_cases he : e1 = e
  · subst he
    by_cases he2 : e2 = e1 <;> simp [he2]
  · by_cases he2 : e2 = e <;> simp [he, he2]

theorem Heard.off (h : Heard calls client) (e : ClientEvent) (hcalls : (calls e).Nodup) (i : Nat) :
    Heard (Function.update calls e ((calls e).filter fun j => j ≠ i))
      (client.off e (listener e i)) := by
  intro e1 e2
  by_cases he : e1 = e
  · subst he
    have hnodup : (client.heard (callOf e1) e1).Nodup := by
      rw [h]
      simpa using hcalls
    rw [Emitter.heard_off (callOf_eq_some.mpr rfl) (fun k => callOf_eq_some.mp) hnodup, h]
    by_cases he2 : e2 = e1 <;> simp [he2]
  · rw [Emitter.heard_off_none (by simp [callOf_listener, he]), h]
    simp [he]

/-- Other code registers and removes its own listeners only. -/
theorem Heard.add_other (h : Heard calls client) (e : ClientEvent) (id : Nat) (once : Bool) :
    Heard calls (client.add e (.other id) once) := by
  intro e1 e2
  rw [Emitter.heard_add, callOf_other, h]
  simp

theorem Heard.off_other (h : Heard calls client) (e : ClientEvent) (id : Nat) :
    Heard calls (client.off e (.other id)) := by
  intro e1 e2
  rw [Emitter.heard_off_none (callOf_other e1 id), h]

/-- Listeners that only the call itself has lost. -/
def LostOnly (i : Nat) (client client' : Emitter ClientEvent Closure) : Prop :=
  ∀ e e', client'.heard (callOf e) e' = client.heard (callOf e) e' ∨
    client'.heard (callOf e) e' = (client.heard (callOf e) e').filter fun j => j ≠ i

theorem LostOnly.same (h : LostOnly i client client') {waiting : List Nat}
    (hheard : Heard (fun _ => waiting) client) (hi : i ∉ waiting) :
    Heard (fun _ => waiting) client' := by
  intro e e'
  rcases h e e' with he | he
  · rw [he, hheard]
  · rw [he, hheard]
    split
    · exact Emitter.filter_ne_of_not_mem hi
    · rfl

/-- After the call has removed its listeners, nothing shows which it had lost before. -/
theorem LostOnly.off (h : LostOnly i client client') {waiting : List Nat}
    (hheard : Heard (fun _ => waiting) client) (hnodup : waiting.Nodup) :
    Heard (fun _ => waiting.filter fun j => j ≠ i)
      ((client'.off .ready (.onReady i)).off .ended (.onEnd i)) := by
  obtain ⟨calls, hcalls, hlost⟩ : ∃ calls, Heard calls client' ∧
      ∀ e, calls e = waiting ∨ calls e = waiting.filter fun j => j ≠ i := by
    refine ⟨fun e => client'.heard (callOf e) e, fun e e' => ?_, fun e => ?_⟩
    · by_cases he : e' = e
      · simp [he]
      · have hnone := h e e'
        rw [hheard, if_neg he, List.filter_nil, or_self] at hnone
        rw [hnone, if_neg he]
    · simpa [hheard e e] using h e e
  have hkept : ∀ e, (calls e).Nodup := fun e => by
    rcases hlost e with he | he <;> rw [he]
    · exact hnodup
    · exact hnodup.filter _
  have hgone : ∀ e, (calls e).filter (fun j => j ≠ i) = waiting.filter fun j => j ≠ i := fun e => by
    rcases hlost e with he | he <;> rw [he]
    rw [List.filter_filter]
    simp
  have hready := hcalls.off .ready (hkept .ready) i
  have hboth := hready.off .ended (by simpa using hkept .ended) i
  intro e e'
  rw [show Closure.onReady i = listener .ready i from rfl,
    show Closure.onEnd i = listener .ended i from rfl, hboth, ← hgone e]
  cases e <;> simp [Function.update]

end

/-! ## The stages of a call -/

def Source.result : Source → Except String Unit
  | .ready => .ok ()
  | .ended => .error "Redis connection closed"
  | .timeout => .error "Redis connection timed out"

/-- The end of a wait that starts in this status and that `first` reaches first. -/
def verdict : Status → Option Source → Option (Except String Unit)
  | .ready, _ => some (.ok ())
  | .ended, _ => some (.error "Redis connection is closed")
  | .other, first => first.map Source.result

theorem verdict_none {status : Status} : verdict status none = none ↔ status = .other := by
  cases status <;> simp [verdict]

/-- A call, with the number of its continuations in the queue. -/
inductive Stage (c : Call ε α) : Nat → Prop where
  | waiting (settlements : c.settlements = []) (invocations : c.invocations = 0)
    (outcome : c.outcome = none) : Stage c 0
  | queued {result : Except String Unit} (settlements : c.settlements = [result])
    (invocations : c.invocations = 0) (outcome : c.outcome = none) : Stage c 1
  | invoked (settlements : c.settlements = [.ok ()]) (invocations : c.invocations = 1) : Stage c 0
  | rejected {message : String} (settlements : c.settlements = [.error message])
    (invocations : c.invocations = 0)
    (outcome : c.outcome = some (.error (.connection message))) : Stage c 0

theorem Stage.same {c' : Call ε α} {n : Nat} (h : Stage c n)
    (hsettlements : c'.settlements = c.settlements) (hinvocations : c'.invocations = c.invocations)
    (houtcome : c'.outcome = c.outcome) : Stage c' n := by
  cases h with
  | waiting hs hi ho =>
    exact .waiting (hsettlements.trans hs) (hinvocations.trans hi) (houtcome.trans ho)
  | queued hs hi ho =>
    exact .queued (hsettlements.trans hs) (hinvocations.trans hi) (houtcome.trans ho)
  | invoked hs hi => exact .invoked (hsettlements.trans hs) (hinvocations.trans hi)
  | rejected hs hi ho =>
    exact .rejected (hsettlements.trans hs) (hinvocations.trans hi) (houtcome.trans ho)

theorem Stage.of_waiting {n : Nat} (h : Stage c n) (hwaiting : c.settlements = []) :
    n = 0 ∧ c.invocations = 0 ∧ c.outcome = none := by
  cases h with
  | waiting _ hinvocations houtcome => exact ⟨rfl, hinvocations, houtcome⟩
  | queued hsettlements => simp [hwaiting] at hsettlements
  | invoked hsettlements => simp [hwaiting] at hsettlements
  | rejected hsettlements => simp [hwaiting] at hsettlements

structure Call.Ok (c : Call ε α) (queued : Nat) : Prop where
  settlements : c.settlements = (verdict c.opening c.sources.head?).toList
  settled : c.opening = .other → c.settled = !c.isWaiting
  /-- nothing reaches a call that did not have to wait -/
  sources : c.opening ≠ .other → c.sources = []
  stage : Stage c queued

theorem Call.Ok.opening {n : Nat} (h : c.Ok n) (hwaiting : c.settlements = []) :
    c.opening = .other := by
  have hnone := h.settlements
  rw [hwaiting] at hnone
  cases hopening : c.opening with
  | other => rfl
  | ready => simp [hopening, verdict] at hnone
  | ended => simp [hopening, verdict] at hnone

theorem Call.Ok.no_sources {n : Nat} (h : c.Ok n) (hwaiting : c.settlements = []) :
    c.sources = [] := by
  have hnone := h.settlements
  rw [hwaiting, h.opening hwaiting] at hnone
  cases hsources : c.sources with
  | nil => rfl
  | cons first rest => simp [hsources, verdict] at hnone

structure Inv (s : State ε α) : Prop where
  listening : Heard (fun _ => s.waiting) s.client
  armed : s.timers.map Timer.call = s.waiting
  calls : ∀ (i : Nat) c, s.calls[i]? = some c → c.Ok (s.microtasks.count i)
  queued : ∀ i ∈ s.microtasks, i < s.calls.length
  /-- only calls that had to wait are called back -/
  due : ∀ e i r, s.client.Due r → r.listener = listener e i →
    ∃ c, s.calls[i]? = some c ∧ c.opening = .other
  fired : ∀ e i, ∀ r ∈ s.client.fired, r.listener = listener e i → i < s.calls.length ∧
    i ∉ s.waiting

theorem initial_inv (status : Status) : Inv (.initial status : State ε α) where
  listening e e' := by simp [State.initial, State.waiting, waiting, Emitter.heard, Emitter.empty]
  armed := rfl
  calls i c hc := by cases hc
  queued i hi := by cases hi
  due e i r hr := by
    obtain ⟨emission, hmem, -⟩ := hr
    cases hmem
  fired e i r hr := by cases hr

/-- A source that reaches a wait that is over changes nothing. -/
theorem notify_late (hc : s.calls[i]? = some c) (hsettled : c.settled = true) (source : Source) :
    notify i source s = { s with
      calls := s.calls.modify i fun c => { c with sources := c.sources ++ [source] } } := by
  cases source <;> simp [notify, onReady, onEnd, onTimeout, finish, hc, hsettled]

/-- The first source settles the wait and clears its timer and its listeners. -/
theorem notify_first (hc : s.calls[i]? = some c) (hopen : c.settled = false)
    (hwait : c.settlements = []) (source : Source) : notify i source s = { s with
      calls := s.calls.modify i fun c => { c with
        sources := c.sources ++ [source]
        settled := true
        settlements := c.settlements ++ [source.result] }
      timers := s.timers.filter fun timer => timer.call ≠ i
      client := (s.client.off .ready (.onReady i)).off .ended (.onEnd i)
      microtasks := s.microtasks ++ [i] } := by
  cases source <;> simp [notify, onReady, onEnd, onTimeout, finish, settle, clearTimeout, hc, hopen,
    Call.isWaiting, hwait, Source.result, List.modify_modify_eq, Function.comp_def]

/-! ## What a step keeps -/

/-- One call changes. -/
theorem Inv.update (h : Inv s) {f : Call ε α → Call ε α}
    {client : Emitter ClientEvent Closure} {timers : List Timer} {microtasks : List Nat}
    (hopening : ∀ c, (f c).opening = c.opening)
    (hcall : ∀ c, s.calls[i]? = some c → (f c).Ok (microtasks.count i))
    (hothers : ∀ j, j ≠ i → microtasks.count j = s.microtasks.count j)
    (hqueued : ∀ j ∈ microtasks, j < s.calls.length)
    (hlistening : Heard (fun _ => waiting (s.calls.modify i f)) client)
    (harmed : timers.map Timer.call = waiting (s.calls.modify i f))
    (hdue : ∀ r, client.Due r → s.client.Due r)
    (hfired : ∀ e j, ∀ r ∈ client.fired, r.listener = listener e j →
      j < s.calls.length ∧ j ∉ waiting (s.calls.modify i f)) :
    Inv { s with calls := s.calls.modify i f, client, timers, microtasks } where
  listening := hlistening
  armed := harmed
  calls j c' hc := by
    rcases getElem?_modify_cases hc with ⟨rfl, c, hold, rfl⟩ | ⟨hj, hold⟩
    · exact hcall c hold
    · rw [hothers j hj]
      exact h.calls j c' hold
  queued j hj := by simpa using hqueued j hj
  due e j r hr hl := by
    obtain ⟨c, hc, ho⟩ := h.due e j r (hdue r hr) hl
    by_cases hj : i = j
    · exact ⟨f c, by simp [hj, hc], by rw [hopening, ho]⟩
    · exact ⟨c, by simp [hj, hc], ho⟩
  fired e j r hr hl := by simpa [State.waiting] using hfired e j r hr hl

/-- What is taken from the client and the timers when a source reaches a call. -/
structure Taken (i : Nat) (s : State ε α) (client : Emitter ClientEvent Closure)
    (timers : List Timer) : Prop where
  lost : LostOnly i s.client client
  due : ∀ r, client.Due r → s.client.Due r
  fired : ∀ r ∈ client.fired, r ∈ s.client.fired ∨ ∃ e, r.listener = listener e i
  timers : timers = s.timers ∨ timers = s.timers.filter fun timer => timer.call ≠ i

section
variable {client : Emitter ClientEvent Closure} {timers : List Timer}

theorem Taken.fired_lt (h : Inv s) (ht : Taken i s client timers) (hi : i < s.calls.length)
    {calls : List (Call ε α)} (hcalls : ∀ j ∈ waiting calls, j ∈ s.waiting ∧ j ≠ i) :
    ∀ e j, ∀ r ∈ client.fired, r.listener = listener e j →
      j < s.calls.length ∧ j ∉ waiting calls := by
  intro e j r hr hl
  rcases ht.fired r hr with hr | ⟨e', hi'⟩
  · obtain ⟨hj, hgone⟩ := h.fired e j r hr hl
    exact ⟨hj, fun hmem => hgone (hcalls j hmem).1⟩
  · obtain rfl : j = i := by
      rw [hl] at hi'
      cases e <;> cases e' <;> cases hi' <;> rfl
    exact ⟨hi, fun hmem => (hcalls j hmem).2 rfl⟩

theorem filter_timers (i : Nat) (timers : List Timer) :
    (timers.filter fun timer => timer.call ≠ i).map Timer.call =
      (timers.map Timer.call).filter fun j => j ≠ i := by
  rw [List.filter_map]
  rfl

theorem Inv.notify_late (h : Inv s) (ht : Taken i s client timers) (hc : s.calls[i]? = some c)
    (hopening : c.opening = .other) (hwaiting : c.isWaiting = false) (source : Source) :
    Inv (notify i source { s with client, timers }) := by
  have hok := h.calls i c hc
  have hsettled := hok.settled hopening
  have hgone : i ∉ s.waiting := by
    intro hmem
    obtain ⟨c', hc', hnil⟩ := mem_waiting.mp hmem
    cases hc.symm.trans hc'
    simp [Call.isWaiting, hnil] at hwaiting
  have hsame : waiting (s.calls.modify i fun c => { c with sources := c.sources ++ [source] }) =
      s.waiting := waiting_modify fun _ _ => rfl
  obtain ⟨first, rest, hsources⟩ : ∃ first rest, c.sources = first :: rest := by
    cases hsources : c.sources with
    | nil => simp [Call.isWaiting, hok.settlements, hopening, hsources, verdict] at hwaiting
    | cons first rest => exact ⟨first, rest, rfl⟩
  rw [CommandRunner.notify_late (s := { s with client, timers }) hc (by simp [hsettled, hwaiting])]
  refine h.update (fun _ => rfl) (fun c' hc' => ?_) (fun _ _ => rfl) h.queued ?_ ?_ ht.due ?_
  · cases hc.symm.trans hc'
    exact ⟨by simpa [hsources] using hok.settlements, hok.settled,
      fun ho => absurd hopening ho, hok.stage.same rfl rfl rfl⟩
  · rw [hsame]
    exact ht.lost.same h.listening hgone
  · rw [hsame, ← h.armed]
    rcases ht.timers with rfl | rfl
    · rfl
    · rw [filter_timers, h.armed, Emitter.filter_ne_of_not_mem hgone]
  · exact ht.fired_lt h (List.getElem?_eq_some_iff.mp hc).1 fun j hj => by
      rw [hsame] at hj
      exact ⟨hj, ne_of_mem_of_not_mem hj hgone⟩

theorem Inv.notify_first (h : Inv s) (ht : Taken i s client timers) (hc : s.calls[i]? = some c)
    (hopening : c.opening = .other) (hwaiting : c.isWaiting = true) (source : Source) :
    Inv (notify i source { s with client, timers }) := by
  have hok := h.calls i c hc
  have hnil : c.settlements = [] := List.isEmpty_iff.mp hwaiting
  obtain ⟨hqueued, hinvocations, houtcome⟩ := hok.stage.of_waiting hnil
  have hsources := hok.no_sources hnil
  have hrest : waiting (s.calls.modify i fun c => { c with
      sources := c.sources ++ [source]
      settled := true
      settlements := c.settlements ++ [source.result] }) = s.waiting.filter fun j => j ≠ i :=
    waiting_settled fun _ _ => by simp [Call.isWaiting]
  rw [CommandRunner.notify_first (s := { s with client, timers }) hc
    (by simp [hok.settled hopening, hwaiting]) hnil]
  refine h.update (fun _ => rfl) (fun c' hc' => ?_) (fun j hj => ?_) (fun j hj => ?_) ?_ ?_ ?_ ?_
  · cases hc.symm.trans hc'
    refine ⟨by simp [hnil, hsources, hopening, verdict], fun _ => by simp [Call.isWaiting],
      fun ho => absurd hopening ho, ?_⟩
    rw [List.count_append, hqueued, List.count_singleton_self]
    exact @Stage.queued _ _ _ source.result (by simp [hnil]) hinvocations houtcome
  · simp [List.count_append, Ne.symm hj]
  · rcases List.mem_append.mp hj with hj | hj
    · exact h.queued j hj
    · obtain rfl := List.mem_singleton.mp hj
      exact (List.getElem?_eq_some_iff.mp hc).1
  · rw [hrest]
    exact ht.lost.off h.listening (nodup_waiting _)
  · rw [hrest, filter_timers, ← h.armed]
    rcases ht.timers with rfl | rfl
    · rfl
    · rw [filter_timers, List.filter_filter]
      simp
  · exact ht.due
  · exact ht.fired_lt h (List.getElem?_eq_some_iff.mp hc).1 fun j hj => by
      rw [hrest] at hj
      simpa using hj

/-- Whether the wait is over or not, a source leaves the calls in order. -/
theorem Inv.notify (h : Inv s) (ht : Taken i s client timers) (hc : s.calls[i]? = some c)
    (hopening : c.opening = .other) (source : Source) :
    Inv (notify i source { s with client, timers }) := by
  cases hwaiting : c.isWaiting with
  | false => exact h.notify_late ht hc hopening hwaiting source
  | true => exact h.notify_first ht hc hopening hwaiting source

end

/-! ## The other steps -/

/-- A step of the client that calls no listener of a call. -/
theorem Inv.withClient (h : Inv s) {client : Emitter ClientEvent Closure}
    (hheard : Heard (fun _ => s.waiting) client)
    (hdue : ∀ e i r, client.Due r → r.listener = listener e i →
      s.client.Due r ∨ i ∈ s.waiting)
    (hfired : ∀ e i, ∀ r ∈ client.fired, r.listener = listener e i → r ∈ s.client.fired) :
    Inv { s with client } where
  listening := hheard
  armed := h.armed
  calls := h.calls
  queued := h.queued
  due e i r hr hl := by
    rcases hdue e i r hr hl with hr | hi
    · exact h.due e i r hr hl
    · obtain ⟨c, hc, hnil⟩ := mem_waiting.mp hi
      exact ⟨c, hc, (h.calls i c hc).opening hnil⟩
  fired e i r hr hl := h.fired e i r (hfired e i r hr hl) hl

theorem Inv.emit (h : Inv s) (event : ClientEvent) :
    Inv { s with client := s.client.emit event } := by
  refine h.withClient h.listening (fun e i r hr hl => ?_) fun e i r hr hl => hr
  rcases Emitter.due_of_emit hr with hlistens | hr
  · exact .inr (h.listening.listens.mp ⟨r, hlistens, hl⟩).2
  · exact .inl hr

theorem Inv.dispatch (h : Inv s) {called : Option Closure}
    {client : Emitter ClientEvent Closure} (hd : s.client.dispatch = some (called, client)) :
    Inv (callback called { s with client }) := by
  have hnodup : ∀ e e', (s.client.heard (callOf e) e').Nodup :=
    h.listening.nodup fun _ => nodup_waiting _
  -- a step of an emission that calls no listener of a call, or one
  have hother : (∀ e i, called ≠ some (listener e i)) → Inv { s with client } := by
    intro hnone
    refine h.withClient (fun e e' => ?_) (fun e i r hr _ => .inl (Emitter.due_of_dispatch hd hr))
      fun e i r hr hl => ?_
    · rcases Emitter.heard_dispatch hd (hnodup e) e' with he | ⟨k, j, hk, hj, -⟩
      · rw [he, h.listening]
      · exact absurd (hk.trans (congrArg some (callOf_eq_some.mp hj))) (hnone e j)
    · rcases Emitter.fired_of_dispatch hd hr with hr | hcalled
      · exact hr
      · exact absurd (hcalled.trans (congrArg some hl)) (hnone e i)
  have hown : ∀ e i source, called = some (listener e i) →
      Inv (CommandRunner.notify i source { s with client }) := by
    intro e i source hcalled
    subst hcalled
    obtain ⟨r, hr, hl⟩ := Emitter.due_of_called hd
    obtain ⟨c, hc, hopening⟩ := h.due e i r hr hl
    have htaken : Taken i s client s.timers := by
      refine ⟨fun e' e'' => ?_, fun r => Emitter.due_of_dispatch hd, fun r hr => ?_, .inl rfl⟩
      · rcases Emitter.heard_dispatch hd (hnodup e') e'' with he | ⟨k, j, hk, hj, he⟩
        · exact .inl he
        · obtain rfl := Option.some.inj hk
          rw [callOf_listener] at hj
          split at hj
          · cases hj
            exact .inr he
          · cases hj
      · rcases Emitter.fired_of_dispatch hd hr with hr | hcalled
        · exact .inl hr
        · exact .inr ⟨e, (Option.some.inj hcalled).symm⟩
    exact h.notify htaken hc hopening source
  cases called with
  | none => exact hother fun e i => nofun
  | some k =>
    cases k with
    | onReady call => exact hown .ready call .ready rfl
    | onEnd call => exact hown .ended call .ended rfl
    | other id => exact hother fun e i => by cases e <;> nofun

/-- The status decides at once, and the call goes on. -/
theorem runCommand_decided {connectTimeoutMs : Nat} {result : Except String Unit}
    (hstatus : verdict s.status none = some result) : runCommand connectTimeoutMs s = { s with
      calls := s.calls ++ [⟨s.status, [], false, [result], 0, none⟩]
      microtasks := s.microtasks ++ [s.calls.length] } := by
  cases hs : s.status <;> rw [hs] at hstatus <;> cases hstatus <;>
    simp [runCommand, waitForReady, settle, hs, Call.isWaiting, modify_append]

/-- The call waits. The second look at the status sees what the first one saw. -/
theorem runCommand_waits {connectTimeoutMs : Nat} (hstatus : s.status = .other) :
    runCommand connectTimeoutMs s = { s with
      calls := s.calls ++ [⟨.other, [], false, [], 0, none⟩]
      timers := s.timers ++ [⟨s.calls.length, connectTimeoutMs⟩]
      client := (s.client.once .ready (.onReady s.calls.length)).once .ended
        (.onEnd s.calls.length) } := by
  simp [runCommand, waitForReady, hstatus]

/-- A new call comes behind the others. -/
theorem Inv.append (h : Inv s) {client : Emitter ClientEvent Closure} {timers : List Timer}
    {microtasks : List Nat} (hcall : c.Ok (microtasks.count s.calls.length))
    (hothers : ∀ j, j ≠ s.calls.length → microtasks.count j = s.microtasks.count j)
    (hqueued : ∀ j ∈ microtasks, j ∈ s.microtasks ∨ j = s.calls.length)
    (hlistening : Heard (fun _ => waiting (s.calls ++ [c])) client)
    (harmed : timers.map Timer.call = waiting (s.calls ++ [c]))
    (hdue : client.emissions = s.client.emissions) (hfired : client.fired = s.client.fired) :
    Inv { s with calls := s.calls ++ [c], client, timers, microtasks } where
  listening := hlistening
  armed := harmed
  calls j c' hc := by
    rcases getElem?_append_cases hc with ⟨hj, hold⟩ | ⟨rfl, rfl⟩
    · rw [hothers j hj.ne]
      exact h.calls j c' hold
    · exact hcall
  queued j hj := by
    rcases hqueued j hj with hj | rfl
    · simpa using Nat.lt_succ_of_lt (h.queued j hj)
    · simp
  due e j r hr hl := by
    obtain ⟨emission, hmem, hr⟩ := hr
    obtain ⟨c', hc', ho⟩ := h.due e j r ⟨emission, hdue ▸ hmem, hr⟩ hl
    have hj := (List.getElem?_eq_some_iff.mp hc').1
    exact ⟨c', by rw [List.getElem?_append_left hj, hc'], ho⟩
  fired e j r hr hl := by
    obtain ⟨hj, hgone⟩ := h.fired e j r (hfired ▸ hr) hl
    refine ⟨by simpa using Nat.lt_succ_of_lt hj, fun hmem => ?_⟩
    rw [State.waiting, waiting_append] at hmem
    rcases List.mem_append.mp hmem with hmem | hmem
    · exact hgone hmem
    · split at hmem
      · exact hj.ne (List.mem_singleton.mp hmem)
      · cases hmem

theorem Inv.runCommand (h : Inv s) (connectTimeoutMs : Nat) :
    Inv (runCommand connectTimeoutMs s) := by
  have hfresh : s.microtasks.count s.calls.length = 0 := List.count_eq_zero.mpr fun hmem =>
    Nat.lt_irrefl _ (h.queued _ hmem)
  cases hverdict : verdict s.status none with
  | some result =>
    have hsame : waiting (s.calls ++ [⟨s.status, [], false, [result], 0, none⟩]) = s.waiting := by
      simp [waiting_append, Call.isWaiting, State.waiting]
    rw [runCommand_decided hverdict]
    refine h.append ?_ (fun j hj => ?_) (fun j hj => ?_) ?_ ?_ rfl rfl
    · refine ⟨by simp [hverdict], fun ho => ?_, fun _ => rfl, ?_⟩
      · rw [show s.status = .other from ho] at hverdict
        cases hverdict
      · rw [List.count_append, hfresh, List.count_singleton_self]
        exact .queued rfl rfl rfl
    · simp [List.count_append, Ne.symm hj]
    · simpa using hj
    · rw [hsame]
      exact h.listening
    · rw [hsame]
      exact h.armed
  | none =>
    have hstatus := verdict_none.mp hverdict
    have hmore : waiting (s.calls ++ [(⟨.other, [], false, [], 0, none⟩ : Call ε α)]) =
        s.waiting ++ [s.calls.length] := by
      simp [waiting_append, Call.isWaiting, State.waiting]
    rw [runCommand_waits hstatus]
    refine h.append ?_ (fun _ _ => rfl) (fun _ => .inl) ?_ ?_ rfl rfl
    · refine ⟨rfl, fun _ => rfl, fun _ => rfl, ?_⟩
      rw [hfresh]
      exact .waiting rfl rfl rfl
    · have hboth := (h.listening.once .ready s.calls.length).once .ended s.calls.length
      rw [hmore]
      intro e e'
      rw [show Closure.onReady s.calls.length = listener .ready s.calls.length from rfl,
        show Closure.onEnd s.calls.length = listener .ended s.calls.length from rfl, hboth]
      cases e <;> simp [Function.update]
    · simp [hmore, h.armed]

theorem proceed_opening (c : Call ε α) : c.proceed.opening = c.opening := by
  unfold Call.proceed
  split <;> rfl

theorem proceed_sources (c : Call ε α) : c.proceed.sources = c.sources := by
  unfold Call.proceed
  split <;> rfl

theorem proceed_settlements (c : Call ε α) : c.proceed.settlements = c.settlements := by
  unfold Call.proceed
  split <;> rfl

/-- A continuation runs once, behind the end of its wait. -/
theorem Call.Ok.proceed {n : Nat} (h : c.Ok (n + 1)) : c.proceed.Ok n := by
  obtain ⟨hsettlements, hsettled, hsources, hstage⟩ := h
  generalize hcount : n + 1 = count at hstage
  cases hstage with
  | waiting => cases hcount
  | invoked => cases hcount
  | rejected => cases hcount
  | @queued result hresult hinvocations houtcome =>
    obtain rfl : n = 0 := by omega
    cases result with
    | ok =>
      have hproceed : c.proceed = { c with invocations := c.invocations + 1 } := by
        simp [Call.proceed, hresult]
      rw [hproceed]
      exact ⟨hsettlements, hsettled, hsources, .invoked hresult (by simp [hinvocations])⟩
    | error message =>
      have hproceed : c.proceed =
          { c with outcome := some (.error (.connection message)) } := by
        simp [Call.proceed, hresult]
      rw [hproceed]
      exact ⟨hsettlements, hsettled, hsources, .rejected hresult hinvocations rfl⟩

theorem Inv.resume (h : Inv s) {rest : List Nat} (hqueue : s.microtasks = i :: rest) :
    Inv (resume i { s with microtasks := rest }) := by
  have hsame : waiting (s.calls.modify i Call.proceed) = s.waiting :=
    waiting_modify fun c _ => by rw [Call.isWaiting, proceed_settlements, Call.isWaiting]
  refine h.update proceed_opening (fun c hc => ?_) (fun j hj => ?_) (fun j hj => ?_) ?_ ?_
    (fun _ => id) ?_
  · have hok := h.calls i c hc
    rw [hqueue, List.count_cons_self] at hok
    exact hok.proceed
  · simp [hqueue, Ne.symm hj]
  · exact h.queued j (by simp [hqueue, show j ∈ rest from hj])
  · rw [hsame]
    exact h.listening
  · rw [hsame]
    exact h.armed
  · rw [hsame]
    exact h.fired

theorem Inv.commandSettles (h : Inv s) (hc : s.calls[i]? = some c) (hinvoked : c.invocations ≠ 0)
    (result : Except ε α) : Inv (commandSettles i result s) := by
  have hsame : waiting (s.calls.modify i fun c =>
      { c with outcome := some (result.mapError .command) }) = s.waiting :=
    waiting_modify fun _ _ => rfl
  refine h.update (fun _ => rfl) (fun c' hc' => ?_) (fun _ _ => rfl) h.queued ?_ ?_
    (fun _ => id) ?_
  · cases hc.symm.trans hc'
    obtain ⟨hsettlements, hsettled, hsources, hstage⟩ := h.calls i c hc
    refine ⟨hsettlements, hsettled, hsources, ?_⟩
    generalize s.microtasks.count i = n at hstage
    cases hstage with
    | waiting _ hnone => exact absurd hnone hinvoked
    | queued _ hnone => exact absurd hnone hinvoked
    | invoked hs hi => exact .invoked hs hi
    | rejected _ hnone => exact absurd hnone hinvoked
  · rw [hsame]
    exact h.listening
  · rw [hsame]
    exact h.armed
  · rw [hsame]
    exact h.fired

theorem Inv.step {connectTimeoutMs : Nat} {event : Event ε α} (h : Inv s)
    (hstep : step connectTimeoutMs s event = some t) : Inv t := by
  cases step_cases hstep with
  | runCommand => exact h.runCommand connectTimeoutMs
  | setStatus => exact ⟨h.listening, h.armed, h.calls, h.queued, h.due, h.fired⟩
  | listen =>
    exact h.withClient (h.listening.add_other _ _ _) (fun _ _ _ hr _ => .inl hr)
      fun _ _ _ hr _ => hr
  | unlisten =>
    exact h.withClient (h.listening.off_other _ _) (fun _ _ _ hr _ => .inl hr)
      fun _ _ _ hr _ => hr
  | emit => exact h.emit _
  | dispatch hd => exact h.dispatch hd
  | throw ha =>
    have hdue := fun r => @Emitter.due_of_abandon _ _ _ _ r ha
    obtain ⟨first, outer, -, rfl⟩ := Emitter.abandon_cases ha
    exact h.withClient h.listening (fun _ _ r hr _ => .inl (hdue r hr)) fun _ _ _ hr _ => hr
  | @timeout call harmed =>
    obtain ⟨c, hc, hnil⟩ := mem_waiting.mp (h.armed ▸ harmed)
    exact h.notify ⟨fun _ _ => .inl rfl, fun _ => id, fun _ => .inl, .inr rfl⟩ hc
      ((h.calls call c hc).opening hnil) .timeout
  | microtask hqueue => exact h.resume hqueue
  | commandSettles hc hinvoked => exact h.commandSettles hc hinvoked _

end NewsApi.Redis.CommandRunner
