import NewsApi.Services.LastGoodKept

/-! # The fresh entry is never without the stale one

Whenever the fresh entry of a key can be read, the stale one can, with the same
articles and for longer, unless a search has just executed the first of its two
writes. Until a search has written, that is because a stale entry is deleted
only by a search that found the fresh one gone; then, because the writes come
in this order and the stale entry lives longer. -/
namespace NewsApi.Services
open NewsApi.Async NewsApi.Text NewsApi.Types NewsApi.Config NewsApi.Errors NewsApi.Cache
open NewsApi.Runtime NewsApi.Redis

/-- A fresh entry that can be read has a stale one with the same articles that lives longer. -/
def Backs (key : JsString) (db : Db) : Prop :=
  ∀ x, db.lookup key = some x → ∃ (articles : ArticleList) (y : Entry Json),
    x.value = articles.value ∧ db.lookup (staleCacheKey key) = some y ∧
      y.value = articles.value ∧ ∀ now, x.alive now = true → y.alive now = true

/-- No search is between its two writes. -/
def BetweenWrites (b : Backed) (key : JsString) : Prop :=
  ∀ (n : Nat) e t, b.process.entries[n]? = some e → e.cacheKey = key → (key, t) ∈ b.landed n →
    ∃ t', (staleCacheKey key, t') ∈ b.landed n

/-- No search has written yet. -/
def Untouched (b : Backed) (key : JsString) : Prop :=
  ∀ (n : Nat) e, b.process.entries[n]? = some e → e.cacheKey = key → b.landed n = []

/-- A search that could not read the stale entry, or is not going to, has come
after the fresh one was gone. -/
def Gone (db : Db) (key : JsString) : Tracking := fun _ pending executed log =>
  (Unserved (staleCacheKey key) log ∨ pending = some (.storeGet (staleCacheKey key)) ∧
    ∃ x, executed = some (.value x) ∧ ∀ articles : ArticleList, x ≠ some articles.value) →
  db.lookup key = none

/-- What holds of a key before a search has written. -/
structure Early (settings : Settings) (honest : Bool) (b : Backed) (key : JsString) : Prop where
  backs : Backs key b.db
  entries : ∀ (m : Nat) e, b.process.entries[m]? = some e → e.cacheKey = key →
    Tracked settings honest b m e (Gone b.db key)

variable {settings : Settings} {platform : Platform} {leases honest : Bool} {b b' : Backed}
  {e : InFlightSearch} {event : Event} {key k : JsString} {options : ArticleSearchOptions}
  {reads : List (JsString × Json)} {log : Log} {db db' : Db} {m n i : Nat}

/-! ## The store -/

theorem Backs.weaken (h : Backs key db) (hw : Weaker key db db') : Backs key db' := by
  intro x hx
  obtain ⟨articles, y, hvalue, hy, hvalue', hlonger⟩ := h x (hw.fresh x hx)
  exact ⟨articles, y, hvalue, hw.stale y hy (hlonger _ (Keyspace.lookup_alive hx)), hvalue',
    hlonger⟩

theorem Backs.of_none (h : db.lookup key = none) : Backs key db := by
  intro x hx
  cases h.symm.trans hx

/-- Without articles under the stale key there is nothing under the fresh one. -/
theorem Backs.gone (h : Backs key db)
    (hs : ∀ articles : ArticleList, db.get (staleCacheKey key) ≠ some articles.value) :
    db.lookup key = none := by
  cases hx : db.lookup key with
  | none => rfl
  | some x =>
    obtain ⟨articles, y, -, hy, hvalue, -⟩ := h x hx
    refine absurd ?_ (hs articles)
    unfold Keyspace.get
    rw [hy, Option.map_some, hvalue]

theorem Weaker.none (hw : Weaker key db db') (h : db.lookup key = none) :
    db'.lookup key = none := by
  cases hx : db'.lookup key with
  | none => rfl
  | some x => cases h.symm.trans (hw.fresh x hx)

/-- Whoever wrote last wrote both entries. -/
theorem StoreHolds.backs {articles : ArticleList} {landed : List (JsString × Nat)} {t : Nat}
    (h : StoreHolds settings key articles db landed) (ht : (staleCacheKey key, t) ∈ landed)
    (httl : TTL_SEC < settings.staleCacheTtlSec) : Backs key db := by
  intro x hx
  obtain ⟨t', hle, ht'⟩ := h.order t ht
  obtain rfl := h.fresh t' ht' x hx
  have hlonger : freshUntil t' ≤ staleUntil settings t :=
    Nat.add_le_add hle (Nat.mul_le_mul_right 1000 (Nat.le_of_lt httl))
  have halive : db.now ≤ freshUntil t' := by
    simpa [Entry.alive] using Keyspace.lookup_alive hx
  refine ⟨articles, _, rfl, h.stale t ht (Nat.le_trans halive hlonger), rfl, fun now hnow => ?_⟩
  simp only [Entry.alive, decide_eq_true_eq] at hnow ⊢
  exact Nat.le_trans hnow hlonger

/-! ## Before a search has written -/

theorem Untouched.before (h : Untouched b' key) (hg : b.Next b') : Untouched b key := by
  intro n e hn hk
  obtain ⟨e', hn', hgrow⟩ := hg.entries n e hn
  have hnil := h n e' hn' (hgrow.cacheKey.trans hk)
  refine List.eq_nil_iff_forall_not_mem.mpr fun w hw => ?_
  have := hg.landed n w hw
  rw [hnil] at this
  cases this

theorem Gone.mono (h : db.lookup key = none → db'.lookup key = none)
    {pending : Option Command} {executed : Option Executed}
    (hg : Gone db key reads pending executed log) : Gone db' key reads pending executed log :=
  fun hm => h (hg hm)

theorem gone_delivers : Delivers settings honest (Gone db key) (Gone db key) := by
  intro executed answer p p' s s' hr hposted hg hm
  rcases hm with hu | ⟨-, x, hx, -⟩
  · refine hg ?_
    rcases unserved_resume hposted hu with hu | ⟨r, hpending, ha, hne⟩
    · exact .inl hu
    · obtain ⟨x, hx, rfl⟩ := executed_get ha
      exact .inr ⟨hpending, x, hx, fun articles h => hne articles (congrArg Except.ok h)⟩
  · cases hx

theorem gone_born {pending : Option Command} (hu : ∀ k, ¬Unserved k log) :
    Gone db key [] pending none log := by
  rintro (h | ⟨-, x, hx, -⟩)
  · exact absurd h (hu _)
  · cases hx

/-- The store loses fresh entries, or those whose time is over. -/
theorem Early.weaken {lookups : Nat → Option Executed} (h : Early settings honest b key)
    (hw : Weaker key b.db db) : Early settings honest { b with db := db, lookups := lookups } key where
  backs := h.backs.weaken hw
  entries m e hm hk := by
    obtain ⟨log, hback, hgone⟩ := h.entries m e hm hk
    exact ⟨log, hback, hgone.mono hw.none⟩

theorem Early.process (hi : Backed.Inv settings honest b) (h : Early settings honest b key)
    (hs : backedStep settings platform leases honest b (.process event) = some b') :
    Early settings honest b' key := by
  obtain ⟨p, hp, rfl⟩ := backedStep_process hs
  refine ⟨by simpa using h.backs, fun m e' hm hk => ?_⟩
  rw [show ({ b.delivered event with process := p } : Backed).db = b.db from delivered_db]
  rcases hi.entry_cases hp hm with ⟨e, he⟩ | ⟨-, -, hnew⟩
  · obtain ⟨e1, hm1, hkey, -⟩ := hi.settled_process hp he
    cases hm.symm.trans hm1
    obtain ⟨e2, hm2, -, htracked⟩ := hi.tracked_moved hp he
      (h.entries m e he (hkey.symm.trans hk)) (fun _ _ _ _ => id) gone_delivers
    cases hm.symm.trans hm2
    exact htracked
  · exact hnew _ fun _ _ => gone_born

/-- What a search that has not written under the key does to its entries. -/
theorem early_execute {command : Command} {executed : Executed}
    (hi : Backed.Inv settings honest b)
    (h : Early settings honest b (searchCacheKey options))
    (hm : b.process.entries[m]? = some e) (hp : e.promise.pending = some command)
    (hnone : b.works m = none) (hexec : execute b.db command = some (executed, db))
    (hunwritten : Untouched (b.worked m command executed db) (searchCacheKey options)) :
    Backs (searchCacheKey options) db ∧
      (b.db.lookup (searchCacheKey options) = none → db.lookup (searchCacheKey options) = none) := by
  have hweak : Weaker (searchCacheKey options) b.db db →
      Backs (searchCacheKey options) db ∧ (b.db.lookup (searchCacheKey options) = none →
        db.lookup (searchCacheKey options) = none) :=
    fun hw => ⟨h.backs.weaken hw, hw.none⟩
  obtain ⟨log, hback, -⟩ := hi.entries m e hm
  rw [hnone] at hback
  cases command with
  | storeGet k =>
    cases hexec
    exact ⟨h.backs, id⟩
  | storeSet k value ttlSec =>
    cases hexec
    have hne : searchCacheKey options ≠ e.cacheKey := fun hk => by
      have := hunwritten m e hm hk.symm
      simp [recordLanded] at this
    obtain ⟨articles, -, -, hcases⟩ := hback.set hp
    obtain ⟨hf, hs⟩ := hi.other_keys hm hne (hcases.imp (fun h => h.1) fun h => h.1)
    exact hweak (weaker_setex b.db hf hs)
  | storeDelete k =>
    cases hexec
    by_cases hk : k = staleCacheKey (searchCacheKey options)
    · have hkey : e.cacheKey = searchCacheKey options := by
        rcases (hback.delete hp).2 with heq | ⟨heq, -⟩
        · rw [hi.cacheKey_eq hm, hk] at heq
          exact absurd heq (staleCacheKey_ne _ _)
        · exact staleCacheKey_injective (heq.symm.trans hk)
      obtain ⟨log, hback, hgone⟩ := h.entries m e hm hkey
      have hu : Unserved (staleCacheKey (searchCacheKey options)) log := by
        rcases (hback.delete hp).2 with heq | ⟨-, hu⟩
        · rw [hkey, hk] at heq
          exact absurd heq (staleCacheKey_ne _ _)
        · exact hkey ▸ hu
      have habsent := hgone (.inl hu)
      have hdel : (b.db.del k).2.lookup (searchCacheKey options) = none := by
        rw [hk, Keyspace.lookup_del_ne b.db (staleCacheKey_ne _ _).symm]
        exact habsent
      exact ⟨.of_none hdel, fun _ => hdel⟩
    · exact hweak (weaker_del b.db hk)
  | _ => cases hexec

theorem Early.executeWork (hi : Backed.Inv settings honest b)
    (h : Early settings honest b (searchCacheKey options))
    (hs : backedStep settings platform leases honest b (.executeWork m) = some b')
    (hunwritten : Untouched b' (searchCacheKey options)) :
    Early settings honest b' (searchCacheKey options) := by
  obtain ⟨e, command, executed, db, hm, hp, hnone, hexec, rfl⟩ := backedStep_executeWork hs
  obtain ⟨hbacks, hlost⟩ := early_execute hi h hm hp hnone hexec hunwritten
  refine ⟨hbacks, fun i e' hi' hk => ?_⟩
  refine Backed.Inv.tracked_worked hm hp hnone hi' (h.entries i e' hi' hk)
    (fun _ _ _ _ hg => hg.mono hlost) fun _ reads log hg hmiss => hlost ?_
  rcases hmiss with hu | ⟨hpending, x, hx, hne⟩
  · exact hg (.inl hu)
  · -- the store answers with what is under the stale key
    cases hpending
    cases hexec
    cases hx
    exact h.backs.gone hne

theorem Early.step {event : BackedEvent} (hi : Backed.Inv settings honest b)
    (h : Early settings honest b (searchCacheKey options))
    (hs : backedStep settings platform leases honest b event = some b')
    (hunwritten : Untouched b' (searchCacheKey options)) :
    Early settings honest b' (searchCacheKey options) := by
  cases event with
  | process event => exact h.process hi hs
  | executeLookup i =>
    obtain ⟨c, command, executed, db, hc, hpending, -, hexec, rfl⟩ := backedStep_executeLookup hs
    exact h.weaken ((execute_lookup ((hi.lookups i c hc).pending hpending) hexec).2 options)
  | executeWork m => exact h.executeWork hi hs hunwritten
  | elapse ms =>
    cases hs
    exact h.weaken (weaker_elapse _ _ ms)
  | sweep k =>
    cases hs
    exact h.weaken (weaker_sweep _ k _)

/-! ## Every run -/

theorem early_of_reachable (hb : Backs (searchCacheKey options) db)
    (h : Reachable (backedStep settings platform leases honest) (.initial db) b)
    (hu : Untouched b (searchCacheKey options)) :
    Early settings honest b (searchCacheKey options) := by
  refine (h.invariant (P := fun b => Backed.Inv settings honest b ∧
    (Untouched b (searchCacheKey options) → Early settings honest b (searchCacheKey options)))
    ⟨.initial settings honest db, fun _ => ⟨hb, fun _ _ h => nomatch h⟩⟩ ?_).2 hu
  intro b ev b' ⟨hi, hearly⟩ hs
  exact ⟨hi.step hs, fun hu => (hearly (hu.before (hi.next hs))).step hi hs hu⟩

/-- The search that has written last. -/
theorem exists_newest (h : ¬Untouched b key) :
    ∃ (n : Nat) (e : InFlightSearch), b.process.entries[n]? = some e ∧ e.cacheKey = key ∧
      b.landed n ≠ [] ∧ ¬Superseded b n key := by
  classical
  let writes (n : Nat) : Prop := ∃ e, b.process.entries[n]? = some e ∧ e.cacheKey = key ∧
    b.landed n ≠ []
  have hlt : ∀ n, writes n → n ≤ b.process.entries.length := fun n ⟨e, hn, _⟩ =>
    Nat.le_of_lt (List.getElem?_eq_some_iff.mp hn).1
  obtain ⟨m, hm⟩ : ∃ m, writes m := by
    by_contra hnone
    refine h fun n e hn hk => ?_
    by_contra hl
    exact hnone ⟨n, e, hn, hk, hl⟩
  obtain ⟨e, hn, hk, hl⟩ := Nat.findGreatest_spec (hlt m hm) hm
  refine ⟨_, e, hn, hk, hl, fun ⟨i, f, hi, hf, hk', hl'⟩ => ?_⟩
  exact Nat.findGreatest_is_greatest hi (hlt i ⟨f, hf, hk', hl'⟩) ⟨f, hf, hk', hl'⟩

/-- Between the writes of searches the fresh entry is backed, whatever the
stale entries' time to live is configured to be. -/
theorem backs_of_reachable {raw : Option JsString} (hb : Backs (searchCacheKey options) db)
    (h : Reachable (backedStep (resolved settings raw) platform leases honest) (.initial db) b)
    (hbetween : BetweenWrites b (searchCacheKey options)) :
    Backs (searchCacheKey options) b.db := by
  by_cases hu : Untouched b (searchCacheKey options)
  · exact (early_of_reachable hb h hu).backs
  · have hi := inv_of_reachable h
    obtain ⟨n, e, hn, hk, hl, hnewest⟩ := exists_newest hu
    obtain ⟨e', articles, hn', hp⟩ := hi.provider hl
    cases hn.symm.trans hn'
    have hholds := hi.store n e articles hn (hk ▸ hnewest) hp
    rw [hk] at hholds
    obtain ⟨log, hback, -⟩ := hi.entries n e hn
    obtain ⟨-, t', ht'⟩ := hback.written hl
    obtain ⟨t, ht⟩ := hbetween n e t' hn hk (hk ▸ ht')
    exact hholds.backs ht (ttl_lt_stale raw)

end NewsApi.Services
