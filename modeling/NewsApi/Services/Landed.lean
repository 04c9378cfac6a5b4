import NewsApi.Services.Backed

/-! # What every search has in the store

Of the writes that a search has sent, all but one that is still under way are
executed, in their order. Searches for one key come one after another, and only
the last of them is at work. -/
namespace NewsApi.Services
open NewsApi.Async NewsApi.Text NewsApi.Types NewsApi.Config NewsApi.Errors NewsApi.Cache
open NewsApi.Runtime NewsApi.Redis NewsApi.Providers

/-- The writes that the store has executed, if `executed` is its answer to the
command that the search waits for. -/
def executedWrites (e : InFlightSearch) (executed : Option Executed) :
    List (JsString × Json × Nat) :=
  match e.promise.pending, executed with
  | some (.storeSet _ _ _), none => e.lo.writes.tail
  | _, _ => e.lo.writes

/-- What is known of a search and of its commands. -/
structure EntryBacked (settings : Settings) (honest : Bool) (sh : Shared) (e : InFlightSearch)
    (executed : Option Executed) (landed : List (JsString × Nat)) (log : Log) : Prop where
  orderly : Orderly settings e.cacheKey ⟨⟨sh, e.lo⟩, log⟩
  parked : (jobHost settings honest).posted.parked (cacheContract settings e.cacheKey)
    (Excused e.cacheKey) e.promise ⟨⟨sh, e.lo⟩, log⟩
  sent : ∀ c, e.promise.pending = some c → ∃ v rest, log = .sent c v :: rest
  latest : ∀ k value ttlSec, e.promise.pending = some (.storeSet k value ttlSec) →
    ∃ rest, e.lo.writes = (k, value, ttlSec) :: rest
  landed : landed.map Prod.fst = (executedWrites e executed).map Prod.fst

/-- What a lookup asks of the store. -/
def LooksUp (key : JsString) : Command → Prop
  | .storeSet _ _ _ => False
  | .storeDelete k => k = key
  | _ => True

variable {settings : Settings} {platform : Platform} {leases honest : Bool}
  {sh sh' : Shared} {e e' : InFlightSearch} {executed : Option Executed}
  {landed : List (JsString × Nat)} {log : Log} {key : JsString} {v v' : View}

theorem only_readCachedArticles (key : JsString) :
    AsyncM.Only (LooksUp key) (readCachedArticles key) := by
  have hdelete : AsyncM.Only (LooksUp key) (deleteCorruptCacheEntry key) :=
    .tryCatch (x := cacheStore.delete key) (Prog.Only.command rfl) fun _ => .pure _
  refine only_withSpan trivial (.bind (.attempt (x := cacheStore.get key)
    (Prog.Only.command trivial)) fun r => ?_)
  rcases r with err | _ | cached
  · exact .ite (.bind hdelete fun _ => .pure _) (.pure _)
  · exact .pure _
  · simp only []
    split
    · exact .bind hdelete fun _ => .pure _
    · exact .pure _

/-! ## The commands of a search -/

theorem now_writes (c : Command) (v : View) (r : Reply c) (v' : View)
    (h : now settings c v = some (r, v')) : v'.lo.writes = v.lo.writes := by
  cases c <;> simp only [now, Option.some.injEq, Prod.mk.injEq, reduceCtorEq] at h <;>
    obtain ⟨-, rfl⟩ := h <;> rfl

/-- A search that has not been answered yet has executed all writes but the one
it has just sent. -/
theorem executedWrites_sends {p : Prog Command Reply (Except JsError ArticleSearchResult)}
    (hs : (jobHost settings honest).Sends (fun v v' => v'.lo.writes = v.lo.writes) v p v')
    (hp : e.promise = p) (hlo : e.lo = v'.lo) :
    executedWrites e none = v.lo.writes ∧
      ∀ k value ttlSec, e.promise.pending = some (.storeSet k value ttlSec) →
        ∃ rest, e.lo.writes = (k, value, ttlSec) :: rest := by
  unfold executedWrites
  rw [hp, hlo]
  rcases hs with ⟨hnone, hw⟩ | ⟨c, v1, hpending, hw, rfl⟩
  · rw [hnone]
    exact ⟨hw, nofun⟩
  · rw [hpending]
    cases c with
    | storeSet k value ttlSec =>
      refine ⟨hw, fun k' value' ttlSec' heq => ?_⟩
      cases heq
      exact ⟨v1.lo.writes, rfl⟩
    | _ => exact ⟨hw, nofun⟩

/-- A write is answered only once it is executed. -/
theorem executedWrites_replied {answer : (c : Command) → Option (Reply c)}
    {p : Prog Command Reply (Except JsError ArticleSearchResult)}
    (hr : (jobHost settings honest).resume (storeAnswer executed answer) e.promise v =
      some (p, v')) : executedWrites e executed = e.lo.writes := by
  unfold executedWrites
  split
  · rename_i k value ttlSec hpending
    obtain ⟨cont, hcall⟩ := Prog.pending_eq_some hpending
    rw [hcall] at hr
    obtain ⟨r, ha, -⟩ := Host.resume_call hr
    cases ha
  · rfl

theorem writes_resume {answer : (c : Command) → Option (Reply c)}
    {p p' : Prog Command Reply (Except JsError ArticleSearchResult)}
    (hr : (jobHost settings honest).resume answer p v = some (p', v')) :
    (jobHost settings honest).Sends (fun v v' => v'.lo.writes = v.lo.writes) v p' v' :=
  Host.resume_sends (h := jobHost settings honest) (T := fun v v' => v'.lo.writes = v.lo.writes)
    (fun _ => rfl) (fun h h' => h'.trans h) now_writes
    (fun _ _ _ _ h => (reply_meanwhile h).writes) hr

/-! ## What is known is kept -/

/-- Others may do what they want meanwhile. -/
theorem EntryBacked.keep (h : EntryBacked settings honest sh e executed landed log)
    (hk : EntryKeeps sh sh' e e') : EntryBacked settings honest sh' e' executed landed log := by
  obtain ⟨hkey, -, -, hp, -, hm⟩ := hk
  have hwrites : e'.lo.writes = e.lo.writes := hm.writes
  have hexec : executedWrites e' executed = executedWrites e executed := by
    unfold executedWrites
    rw [hp, hwrites]
  obtain ⟨cacheKey, options, lo, promise, subscribers, settled, creator, creatorAborted⟩ := e'
  cases hkey
  cases hp
  refine ⟨⟨h.orderly.writes.congr hm.provider hm.writes, ?_⟩, ?_, h.sent, ?_, ?_⟩
  · refine h.orderly.deletes.imp_right fun hd => ⟨hwrites.trans hd.1, hd.2⟩
  · exact Host.parked_rely h.parked ⟨hm, rfl⟩ (fun _ hr => hr) id
  · intro k value ttlSec hpending
    obtain ⟨rest, hw⟩ := h.latest k value ttlSec hpending
    exact ⟨rest, hwrites.trans hw⟩
  · rw [hexec]
    exact h.landed

/-- The search goes on with an answer. -/
theorem EntryBacked.reply {answer : (c : Command) → Option (Reply c)}
    {p : Prog Command Reply (Except JsError ArticleSearchResult)}
    (h : EntryBacked settings honest sh e executed landed log)
    (hr : (jobHost settings honest).resume (storeAnswer executed answer) e.promise ⟨sh, e.lo⟩ =
      some (p, v)) :
    ∃ log', (jobHost settings honest).posted.resume (storeAnswer executed answer) e.promise
        ⟨⟨sh, e.lo⟩, log⟩ = some (p, ⟨v, log'⟩) ∧
      EntryBacked settings honest v.sh { e with lo := v.lo, promise := p } none landed log' := by
  obtain ⟨⟨v', log'⟩, hstate, hposted⟩ := Host.resume_posted ⟨⟨sh, e.lo⟩, log⟩ hr
  cases hstate
  obtain ⟨hi, hparked⟩ := Host.resume_sound h.orderly h.parked hposted
  have hsent := Host.resume_sends (T := fun _ _ => True) (fun _ => trivial) (fun _ _ => trivial)
    (fun _ _ _ _ _ => trivial) (fun _ _ _ _ _ => trivial) hposted
  obtain ⟨hexec, hlatest⟩ := executedWrites_sends (writes_resume hr)
    (e := { e with lo := v'.lo, promise := p }) rfl rfl
  refine ⟨log', hposted, hi, hparked, fun c hc => hsent.sent hc, hlatest, ?_⟩
  rw [hexec, h.landed, executedWrites_replied hr]

/-! ## What an answer adds -/

variable (settings honest) in
theorem reads_advance {α : Type} (p : Prog Command Reply α) (v : View) :
    ((jobHost settings honest).advance p v).2.lo.reads = v.lo.reads := by
  refine Host.advance_frame (h := jobHost settings honest)
    (T := fun v v' => v'.lo.reads = v.lo.reads) (fun _ => rfl)
    (fun h h' => h'.trans h) (fun c v r v' h => ?_) (fun c v => ?_) p v
  · cases c <;> simp only [jobHost, now, Option.some.injEq, Prod.mk.injEq, reduceCtorEq] at h <;>
      obtain ⟨-, rfl⟩ := h <;> rfl
  · cases c <;> rfl

theorem reads_reply {c : Command} {r : Reply c} (h : reply honest c r v = some v') :
    v'.lo.reads = v.lo.reads ∨
      ∃ k value, c = .storeGet k ∧ r ≍ (.ok (some value) : Reply (.storeGet k)) ∧
        v'.lo.reads = (k, value) :: v.lo.reads := by
  unfold reply at h
  split at h
  · cases h
    exact .inr ⟨_, _, rfl, .rfl, rfl⟩
  · split at h
    · split at h <;> cases h
      exact .inl rfl
    · cases h
  · split at h <;> cases h
    exact .inl rfl
  · cases h
    exact .inl rfl

/-- A program reads what it is answered. -/
theorem reads_resume {α : Type} {answer : (c : Command) → Option (Reply c)}
    {p p' : Prog Command Reply α} (hr : (jobHost settings honest).resume answer p v = some (p', v')) :
    ∀ r ∈ v'.lo.reads, r ∈ v.lo.reads ∨ ∃ k value, p.pending = some (.storeGet k) ∧
      answer (.storeGet k) = some (.ok (some value)) ∧ r = (k, value) := by
  intro x hx
  cases p with
  | pure a => cases hr
  | call c k =>
    obtain ⟨r, ha, v1, hv1, he⟩ := Host.resume_call hr
    have hreads := reads_advance settings honest (k r) v1
    rw [he] at hreads
    rw [hreads] at hx
    rcases reads_reply hv1 with hsame | ⟨key, value, rfl, hr', hcons⟩
    · exact .inl (hsame ▸ hx)
    · cases hr'
      rw [hcons] at hx
      rcases List.mem_cons.mp hx with rfl | hx
      · exact .inr ⟨key, value, rfl, ha, rfl⟩
      · exact .inl hx
  | iter body b k =>
    have hreads := reads_advance settings honest (Host.round body b k) v
    rw [Option.some.inj hr] at hreads
    exact .inl (hreads ▸ hx)

theorem unserved_advance {α : Type} (p : Prog Command Reply α) (t : Scene)
    (hu : Unserved key ((jobHost settings honest).posted.advance p t).2.log) :
    Unserved key t.log := by
  refine Host.advance_frame (h := (jobHost settings honest).posted)
    (T := fun t t' => Unserved key t'.log → Unserved key t.log) (fun _ => id)
    (fun h h' => h ∘ h') (fun c t r t' h hu => ?_) (fun c t hu => ?_) p t hu
  · obtain ⟨next, -, heq⟩ := Option.map_eq_some_iff.mp h
    cases heq
    exact hu
  · obtain ⟨r, v, hmem, hne⟩ := hu
    rcases List.mem_cons.mp hmem with heq | hmem
    · cases heq
    · exact ⟨r, v, hmem, hne⟩

theorem unserved_resume {α : Type} {answer : (c : Command) → Option (Reply c)}
    {p p' : Prog Command Reply α} {t t' : Scene}
    (hr : (jobHost settings honest).posted.resume answer p t = some (p', t'))
    (hu : Unserved key t'.log) : Unserved key t.log ∨ ∃ r, p.pending = some (.storeGet key) ∧
      answer (.storeGet key) = some r ∧ ∀ articles : ArticleList, r ≠ .ok (some articles.value) := by
  cases p with
  | pure a => cases hr
  | call c k =>
    obtain ⟨r, ha, t1, ht1, he⟩ := Host.resume_call hr
    obtain ⟨v, -, rfl⟩ := Option.map_eq_some_iff.mp ht1
    obtain ⟨r', v', hmem, hne⟩ := unserved_advance (k r) ⟨v, .answered c r v :: t.log⟩
      (by rw [he]; exact hu)
    rcases List.mem_cons.mp hmem with heq | hmem
    · cases heq
      exact .inr ⟨r', rfl, ha, hne⟩
    · exact .inl ⟨r', v', hmem, hne⟩
  | iter body b k =>
    exact .inl (unserved_advance (Host.round body b k) t (by rw [Option.some.inj hr]; exact hu))

/-! ## A new search -/

/-- A program that has written nothing yet, up to its first suspension. -/
theorem entryBacked_advance {p : Prog Command Reply (Except JsError ArticleSearchResult)}
    {t : Scene} (hwp : (jobHost settings honest).posted.wp (cacheContract settings e.cacheKey) p
      (fun r t => Orderly settings e.cacheKey t ∧ Excused e.cacheKey r t) t)
    (hw : t.state.lo.writes = []) (hu : ∀ k, ¬Unserved k t.log)
    (hstart : (jobHost settings honest).advance p t.state = (e.promise, ⟨sh, e.lo⟩)) :
    ∃ log, EntryBacked settings honest sh e none [] log ∧ ∀ k, ¬Unserved k log := by
  obtain ⟨hi, hparked⟩ := Host.advance_sound hwp
  obtain ⟨hp, hs⟩ := Host.advance_posted (h := jobHost settings honest) p t
  have hsent := Host.advance_sends (h := (jobHost settings honest).posted) (T := fun _ _ => True)
    (fun _ => trivial) (fun _ _ => trivial) (fun _ _ _ _ _ => trivial) p t
  have hwrites := Host.advance_sends (h := jobHost settings honest)
    (T := fun v v' => v'.lo.writes = v.lo.writes) (fun _ => rfl) (fun h h' => h'.trans h) now_writes
    p t.state
  have hnone : ∀ k, ¬Unserved k ((jobHost settings honest).posted.advance p t).2.log :=
    fun k h => hu k (unserved_advance p t h)
  rw [hstart] at hp hs hwrites
  obtain ⟨hexec, hlatest⟩ := executedWrites_sends hwrites rfl rfl
  obtain ⟨⟨state, log⟩, hnext⟩ : ∃ next, (jobHost settings honest).posted.advance p t =
      (e.promise, next) := ⟨_, Prod.ext hp rfl⟩
  rw [hnext] at hi hparked hs hsent hnone
  cases hs
  exact ⟨log, ⟨hi, hparked, fun c hc => hsent.sent hc, hlatest, by rw [hexec, hw]; rfl⟩, hnone⟩

theorem EntryBacked.start {options : ArticleSearchOptions} {n : Nat} {randoms : Nat → Rat}
    {uuid : JsString} (hstart : (jobHost settings honest).advance
      (fetchArticlesFromUpstream settings platform leases options e.cacheKey).run
        ⟨sh, .start n randoms uuid⟩ = (e.promise, ⟨sh', e.lo⟩)) :
    e.lo.reads = [] ∧
      ∃ log, EntryBacked settings honest sh' e none [] log ∧ ∀ k, ¬Unserved k log := by
  have hcalm : Calm ⟨⟨sh, .start n randoms uuid⟩, []⟩ := ⟨⟨rfl, rfl⟩, noDelete_nil⟩
  have hreads := reads_advance settings honest
    (fetchArticlesFromUpstream settings platform leases options e.cacheKey).run
    ⟨sh, .start n randoms uuid⟩
  rw [hstart] at hreads
  exact ⟨hreads, entryBacked_advance
    (wp_fetchArticlesFromUpstream_concluded settings platform honest leases options e.cacheKey
      hcalm) rfl (fun k ⟨_, _, hmem, _⟩ => nomatch hmem) hstart⟩

end NewsApi.Services
