import NewsApi.Services.LastGood

/-! # The last good answer is kept

Every event of the system keeps what the store has of the searches. A search
that is at work is the last one for its key, so nobody else writes under its
keys, and a stale entry is deleted only by a search that could not read it. -/
namespace NewsApi.Services
open NewsApi.Async NewsApi.Text NewsApi.Types NewsApi.Config NewsApi.Errors NewsApi.Cache
open NewsApi.Runtime NewsApi.Collections NewsApi.Redis

variable {settings : Settings} {platform : Platform} {leases honest : Bool} {b b' : Backed}
  {e e' : InFlightSearch} {executed : Option Executed} {event : Event}
  {landed : List (JsString × Nat)} {log : Log} {key k : JsString} {articles : ArticleList}
  {db db' : Db} {n m i t : Nat} {v v' : View} {replied : Nat → Prop}

/-! ## Answers of the store -/

theorem executed_get {r : Reply (.storeGet k)}
    (h : executed.bind (·.answer (.storeGet k)) = some r) :
    ∃ x, executed = some (.value x) ∧ r = .ok x := by
  obtain ⟨d, rfl, hd⟩ := Option.bind_eq_some_iff.mp h
  cases d with
  | value x =>
    cases hd
    exact ⟨x, rfl, rfl⟩
  | done => cases hd

theorem Fits.idle {reads : List (JsString × Json)} {pending : Option Command}
    (h : ∀ r ∈ reads, r.1 = key ∨ r.1 = staleCacheKey key → r.2 = articles.value) :
    Fits key articles reads pending none where
  reads := h
  fresh _ _ hx := nomatch hx
  stale _ _ hx := nomatch hx

/-- What fits is what is read. -/
theorem Fits.resume {α : Type} {answer : (c : Command) → Option (Reply c)}
    {p p' : Prog Command Reply α}
    (h : Fits key articles v.lo.reads p.pending executed)
    (hr : (jobHost settings honest).resume (storeAnswer executed answer) p v = some (p', v')) :
    Fits key articles v'.lo.reads p'.pending none := by
  refine .idle fun r hmem hk => ?_
  rcases reads_resume hr r hmem with hold | ⟨k, value, hpending, ha, rfl⟩
  · exact h.reads r hold hk
  · obtain ⟨x, hx, heq⟩ := executed_get ha
    cases heq
    rcases hk with rfl | rfl
    · exact Option.some.inj ((h.fresh hpending _ hx).resolve_left nofun)
    · exact Option.some.inj (h.stale hpending _ hx)

/-- The stale entry is read while it is the last good answer. -/
theorem Fits.served {α : Type} {answer : (c : Command) → Option (Reply c)}
    {p p' : Prog Command Reply α} {s s' : Scene} {reads : List (JsString × Json)}
    (h : Fits key articles reads p.pending executed)
    (hr : (jobHost settings honest).posted.resume (storeAnswer executed answer) p s =
      some (p', s')) (hu : Unserved (staleCacheKey key) s'.log) :
    Unserved (staleCacheKey key) s.log := by
  rcases unserved_resume hr hu with hold | ⟨r, hpending, ha, hne⟩
  · exact hold
  · obtain ⟨x, hx, rfl⟩ := executed_get ha
    exact absurd (congrArg Except.ok (h.stale hpending _ hx)) (hne articles)

/-! ## What no event takes back -/

structure Backed.Next (b b' : Backed) : Prop where
  entries : EntriesGrow (fun _ => True) b.process.entries b'.process.entries
  now : b.db.now ≤ b'.db.now
  landed : ∀ n, ∀ w ∈ b.landed n, w ∈ b'.landed n

theorem EntriesGrow.weaken {entries entries' : List InFlightSearch}
    (h : EntriesGrow replied entries entries') : EntriesGrow (fun _ => True) entries entries' := by
  intro n e hn
  obtain ⟨e', hn', hg⟩ := h n e hn
  exact ⟨e', hn', { hg with promise := fun hno => absurd trivial hno }⟩

theorem Superseded.next (hg : b.Next b') (h : Superseded b n key) : Superseded b' n key := by
  obtain ⟨m, e, hlt, hm, hk, hl⟩ := h
  obtain ⟨e', hm', hgrow⟩ := hg.entries m e hm
  refine ⟨m, e', hlt, hm', hgrow.cacheKey.trans hk, ?_⟩
  obtain ⟨w, hmem⟩ := List.exists_mem_of_ne_nil _ hl
  exact List.ne_nil_of_mem (hg.landed m w hmem)

namespace Backed.Inv
variable (hi : Backed.Inv settings honest b)
include hi

/-- A search that has written has the articles of its provider. -/
theorem provider (hl : b.landed n ≠ []) :
    ∃ e articles, b.process.entries[n]? = some e ∧ e.lo.provider = some (.ok articles) := by
  have hlt : n < b.process.entries.length :=
    Nat.lt_of_not_le fun hle => hl (hi.newWorks n hle).2
  have hn : b.process.entries[n]? = some b.process.entries[n] := List.getElem?_eq_getElem hlt
  obtain ⟨log, hback, -⟩ := hi.entries n _ hn
  obtain ⟨⟨articles, hp⟩, -⟩ := hback.written hl
  exact ⟨_, articles, hn, hp⟩

/-- It had them before. -/
theorem provider_before (hg : b.Next b') (hl : b.landed n ≠ [])
    (hn : b'.process.entries[n]? = some e') (hp : e'.lo.provider = some (.ok articles)) :
    ∃ e, b.process.entries[n]? = some e ∧ e'.cacheKey = e.cacheKey ∧
      e.lo.provider = some (.ok articles) := by
  obtain ⟨e, articles', he, hp'⟩ := hi.provider hl
  obtain ⟨e'', hn'', hgrow⟩ := hg.entries n e he
  cases hn.symm.trans hn''
  refine ⟨e, he, hgrow.cacheKey, ?_⟩
  cases hp.symm.trans (hgrow.provider _ hp')
  exact hp'

theorem lastGood_before (h : LastGood settings b' n key articles t) (hg : b.Next b')
    (hl : (staleCacheKey key, t) ∈ b.landed n) : LastGood settings b n key articles t := by
  obtain ⟨e', hn, hk, hp⟩ := h.search
  obtain ⟨e, he, hkey, hpe⟩ := hi.provider_before hg (List.ne_nil_of_mem hl) hn hp
  exact ⟨⟨e, he, hkey.symm.trans hk, hpe⟩, fun hs => h.newest (hs.next hg), hl,
    Nat.le_trans hg.now h.alive⟩

/-- What the store had of the writes of a search. -/
theorem store_before (hg : b.Next b') (hn : b'.process.entries[n]? = some e')
    (hnew : ¬Superseded b' n e'.cacheKey)
    (hp : e'.lo.provider = some (.ok articles)) :
    StoreHolds settings e'.cacheKey articles b.db (b.landed n) := by
  by_cases hl : b.landed n = []
  · rw [hl]
    exact .nil
  · obtain ⟨e, he, hkey, hpe⟩ := hi.provider_before hg hl hn hp
    rw [hkey] at hnew ⊢
    exact hi.store n e articles he (fun hs => hnew (hs.next hg)) hpe

/-- What can be read of the last good answer. -/
theorem get (h : LastGood settings b n key articles t) :
    (b.db.get key = none ∨ b.db.get key = some articles.value) ∧
      b.db.get (staleCacheKey key) = some articles.value := by
  obtain ⟨e, hn, rfl, hp⟩ := h.search
  exact (hi.store n e articles hn h.newest hp).get h.landed h.alive

theorem cacheKey_eq (hn : b.process.entries[n]? = some e) : e.cacheKey = searchCacheKey e.options :=
  (hi.ok.entries e (List.mem_of_getElem? hn)).key

/-- A search that waits for an answer is the last one for its key. -/
theorem last {command : Command} (hm : b.process.entries[m]? = some e)
    (hp : e.promise.pending = some command) (hn : b.process.entries[n]? = some e')
    (hk : e'.cacheKey = e.cacheKey) : n ≤ m := by
  refine Nat.le_of_not_lt fun hlt => ?_
  obtain ⟨r, hr⟩ := (hi.ok.entries e (List.mem_of_getElem? hm)).settled
    (hi.ordered m n e e' hlt hm hn hk.symm)
  rw [hr] at hp
  cases hp

end Backed.Inv

/-! ## Events that no search takes part in -/

/-- The store loses fresh entries, or those whose time is over. -/
theorem Backed.Inv.weaken {lookups : Nat → Option Executed} (hi : Backed.Inv settings honest b)
    (hnow : b.db.now ≤ db.now) (hw : ∀ options, Weaker (searchCacheKey options) b.db db)
    (hlookups : ∀ i, b.process.calls.length ≤ i → lookups i = none) :
    Backed.Inv settings honest { b with db := db, lookups := lookups } where
  ok := hi.ok
  known := hi.known
  entries m e hm := by
    obtain ⟨log, hback, hfits⟩ := hi.entries m e hm
    refine ⟨log, hback, fun n hlt articles t hlast => hfits n hlt articles t ?_⟩
    exact hi.lastGood_before hlast ⟨.refl _ _, hnow, fun _ _ => id⟩ hlast.landed
  lookups := hi.lookups
  newWorks := hi.newWorks
  newLookups := hlookups
  clock n w hmem := Nat.le_trans (hi.clock n w hmem) hnow
  ordered := hi.ordered
  store n e articles hn hnew hp := by
    have hstore := hi.store n e articles hn hnew hp
    rw [hi.cacheKey_eq hn] at hstore ⊢
    exact hstore.weaker (hw e.options)

/-- A lookup deletes only the fresh entry. -/
theorem execute_lookup {command : Command} {executed : Executed} {options : ArticleSearchOptions}
    (hlooks : LooksUp (searchCacheKey options) command)
    (h : execute db command = some (executed, db')) :
    db'.now = db.now ∧ ∀ options, Weaker (searchCacheKey options) db db' := by
  cases command with
  | storeGet k =>
    cases h
    exact ⟨rfl, fun _ => .of_lookup rfl rfl rfl⟩
  | storeDelete k =>
    cases h
    rw [show k = searchCacheKey options from hlooks]
    exact ⟨Keyspace.del_now _ _, fun _ => weaker_del db (staleCacheKey_ne _ _).symm⟩
  | storeSet => exact hlooks.elim
  | _ => cases h

theorem Backed.Inv.executeLookup (hi : Backed.Inv settings honest b)
    (hs : backedStep settings platform leases honest b (.executeLookup i) = some b') :
    Backed.Inv settings honest b' := by
  obtain ⟨c, command, executed, db, hc, hpending, -, hexec, rfl⟩ := backedStep_executeLookup hs
  obtain ⟨hnow, hw⟩ := execute_lookup ((hi.lookups i c hc).pending hpending) hexec
  refine hi.weaken (Nat.le_of_eq hnow.symm) hw fun j hj => ?_
  have hlt := (List.getElem?_eq_some_iff.mp hc).1
  rw [Function.update_of_ne (by omega)]
  exact hi.newLookups j hj

/-! ## The store executes a command of a search -/

theorem execute_now {command : Command} {executed : Executed}
    (h : execute db command = some (executed, db')) : db'.now = db.now := by
  cases command with
  | storeGet | storeSet => cases h; rfl
  | storeDelete k =>
    cases h
    exact Keyspace.del_now db k
  | _ => cases h

theorem worked_next {command : Command} {executed : Executed} (h : db.now = b.db.now) :
    b.Next (b.worked m command executed db) where
  entries := .refl _ _
  now := Nat.le_of_eq h.symm
  landed n w hw := by
    by_cases hnm : n = m
    · subst hnm
      rw [worked_landed_self]
      cases command with
      | storeSet => exact List.mem_cons_of_mem _ hw
      | _ => exact hw
    · rwa [worked_landed hnm]

/-- What the store answers to a read fits. -/
theorem Fits.execute {reads : List (JsString × Json)} {command : Command} {executed : Executed}
    (h : Fits key articles reads (some command) none)
    (hexec : execute db command = some (executed, db'))
    (hget : (db.get key = none ∨ db.get key = some articles.value) ∧
      db.get (staleCacheKey key) = some articles.value) :
    Fits key articles reads (some command) (some executed) where
  reads := h.reads
  fresh hp x hx := by
    cases hp
    cases hexec
    cases hx
    exact hget.1
  stale hp x hx := by
    cases hp
    cases hexec
    cases hx
    exact hget.2

theorem EntryBacked.execute {command : Command} {sh : Shared}
    (h : EntryBacked settings honest sh e none landed log)
    (hp : e.promise.pending = some command) (executed : Executed) (db : Db) :
    EntryBacked settings honest sh e (some executed) (recordLanded db landed command) log := by
  refine ⟨h.orderly, h.parked, h.sent, h.latest, ?_⟩
  have hlanded := h.landed
  unfold executedWrites at hlanded ⊢
  rw [hp] at hlanded ⊢
  cases command with
  | storeSet k value ttlSec =>
    obtain ⟨rest, hw⟩ := h.latest k value ttlSec hp
    rw [hw] at hlanded
    simp only [recordLanded, List.map_cons, hw]
    rw [hlanded]
    rfl
  | _ => exact hlanded

namespace Backed.Inv
variable (hi : Backed.Inv settings honest b)
include hi

/-- Other searches use other keys. -/
theorem other_keys (hm : b.process.entries[m]? = some e) {options : ArticleSearchOptions}
    (hne : searchCacheKey options ≠ e.cacheKey)
    (hk : k = e.cacheKey ∨ k = staleCacheKey e.cacheKey) :
    searchCacheKey options ≠ k ∧ staleCacheKey (searchCacheKey options) ≠ k := by
  have he := hi.cacheKey_eq hm
  rcases hk with rfl | rfl
  · exact ⟨hne, by rw [he]; exact staleCacheKey_ne _ _⟩
  · exact ⟨(staleCacheKey_ne _ _).symm, fun heq => hne (staleCacheKey_injective heq)⟩

theorem fresh_ne_stale (hn : b.process.entries[n]? = some e) :
    e.cacheKey ≠ staleCacheKey e.cacheKey := by
  rw [hi.cacheKey_eq hn]
  exact (staleCacheKey_ne _ _).symm

/-- A search writes. -/
theorem store_set {value : Json} {ttlSec : Nat} (hm : b.process.entries[m]? = some e)
    (hp : e.promise.pending = some (.storeSet k value ttlSec)) (hnone : b.works m = none)
    (hn : b.process.entries[n]? = some e')
    (hnew : ¬Superseded (b.worked m (.storeSet k value ttlSec) .done (b.db.setex k ttlSec value))
      n e'.cacheKey) (hprovider : e'.lo.provider = some (.ok articles)) :
    StoreHolds settings e'.cacheKey articles (b.db.setex k ttlSec value)
      ((b.worked m (.storeSet k value ttlSec) .done (b.db.setex k ttlSec value)).landed n) := by
  have hstore := hi.store n e' articles hn (fun hs => hnew (hs.next (worked_next rfl))) hprovider
  obtain ⟨log, hback, -⟩ := hi.entries m e hm
  rw [hnone] at hback
  obtain ⟨articles', hp', rfl, hcases⟩ := hback.set hp
  by_cases hnm : n = m
  · subst hnm
    cases hm.symm.trans hn
    cases hp'.symm.trans hprovider
    rw [worked_landed_self]
    rcases hcases with ⟨rfl, rfl, hl⟩ | ⟨rfl, rfl, t, hl⟩
    · rw [hl]
      exact .setFresh (hi.fresh_ne_stale hm)
    · rw [hl] at hstore ⊢
      refine hstore.setStale (hi.fresh_ne_stale hm) (hi.clock n (e.cacheKey, t) ?_)
      simp [hl]
  · rw [worked_landed hnm]
    have hne : e'.cacheKey ≠ e.cacheKey := fun hk =>
      hnew ⟨m, e, Nat.lt_of_le_of_ne (hi.last hm hp hn hk) hnm, hm, hk.symm, by simp [recordLanded]⟩
    rw [hi.cacheKey_eq hn] at hne hstore ⊢
    obtain ⟨hf, hs⟩ := hi.other_keys hm hne (hcases.imp (fun h => h.1) fun h => h.1)
    exact hstore.weaker (weaker_setex b.db hf hs)

/-- A search deletes. -/
theorem store_delete (hm : b.process.entries[m]? = some e)
    (hp : e.promise.pending = some (.storeDelete k))
    (hn : b.process.entries[n]? = some e') (hnew : ¬Superseded b n e'.cacheKey)
    (hprovider : e'.lo.provider = some (.ok articles)) :
    StoreHolds settings e'.cacheKey articles (b.db.del k).2 (b.landed n) := by
  have hstore := hi.store n e' articles hn hnew hprovider
  obtain ⟨log, hback, hlater⟩ := hi.entries m e hm
  obtain ⟨hl, hcases⟩ := hback.delete hp
  by_cases hk : k = staleCacheKey e'.cacheKey
  · subst hk
    rcases hcases with hk | ⟨hk, hu⟩
    · rw [hi.cacheKey_eq hm] at hk
      exact absurd hk (staleCacheKey_ne _ _)
    · have hk := staleCacheKey_injective hk
      rcases Nat.eq_or_lt_of_le (hi.last hm hp hn hk) with rfl | hlt
      · rw [hl]
        exact .nil
      · refine ⟨fun t ht x hx => hstore.fresh t ht x ?_, fun t ht hnow => ?_, hstore.order⟩
        · rwa [Keyspace.lookup_del_ne b.db (hi.fresh_ne_stale hn)] at hx
        · -- a search that could not read the last good answer came after its time
          rw [Keyspace.del_now] at hnow
          rw [hk] at ht hnew
          exact absurd hu (hlater n hlt articles t ⟨⟨e', hn, hk, hprovider⟩, hnew, ht, hnow⟩).2
  · exact hstore.weaker (weaker_del b.db hk)

section
variable {command : Command} {executed : Executed} (hm : b.process.entries[m]? = some e)
  (hp : e.promise.pending = some command) (hnone : b.works m = none)
  (hexec : Services.execute b.db command = some (executed, db))
include hm hp hexec

/-- What a search has written is nothing to the searches before it. -/
theorem lastGood_worked (hm' : b.process.entries[i]? = some e') (hn : n < i)
    (h : LastGood settings (b.worked m command executed db) n e'.cacheKey articles t) :
    LastGood settings b n e'.cacheKey articles t := by
  have hne : n ≠ m := by
    rintro rfl
    obtain ⟨f, hf, hk, -⟩ := h.search
    cases hm.symm.trans hf
    exact absurd (hi.last hm hp hm' hk.symm) (Nat.not_le_of_lt hn)
  have hl := h.landed
  rw [worked_landed hne] at hl
  exact hi.lastGood_before h (worked_next (execute_now hexec)) hl

include hnone

omit hi hexec in
/-- What is known of the searches once the command of search `m` is executed. -/
theorem tracked_worked {Φ Φ' : Tracking}
    (hi' : b.process.entries[i]? = some e') (h : Tracked settings honest b i e' Φ)
    (hkeep : ∀ reads pending executed log, Φ reads pending executed log →
      Φ' reads pending executed log)
    (hexecute : e'.cacheKey = e.cacheKey → ∀ reads log, Φ reads (some command) none log →
      Φ' reads (some command) (some executed) log) :
    Tracked settings honest (b.worked m command executed db) i e' Φ' := by
  obtain ⟨log, hback, hΦ⟩ := h
  by_cases him : i = m
  · subst him
    cases hm.symm.trans hi'
    rw [hnone] at hback hΦ
    refine ⟨log, ?_, ?_⟩
    · rw [worked_works_self, worked_landed_self]
      exact hback.execute hp executed b.db
    · rw [hp] at hΦ ⊢
      rw [worked_works_self]
      exact hexecute rfl _ _ hΦ
  · refine ⟨log, ?_, ?_⟩
    · rw [worked_works him, worked_landed him]
      exact hback
    · rw [worked_works him]
      exact hkeep _ _ _ _ hΦ

theorem entry_worked (hi' : b.process.entries[i]? = some e') :
    Tracked settings honest (b.worked m command executed db) i e'
      (HasOnly settings (b.worked m command executed db) i e'.cacheKey) := by
  refine tracked_worked hm hp hnone hi' (hi.entries i e' hi') ?_ ?_
  · intro reads pending executed log h n hn articles t hlast
    exact h n hn articles t (hi.lastGood_worked hm hp hexec hi' hn hlast)
  · intro _ reads log h n hn articles t hlast
    have hlast := hi.lastGood_worked hm hp hexec hi' hn hlast
    obtain ⟨hf, hu⟩ := h n hn articles t hlast
    exact ⟨hf.execute hexec (hi.get hlast), hu⟩

theorem store_worked (hn : b.process.entries[n]? = some e')
    (hnew : ¬Superseded (b.worked m command executed db) n e'.cacheKey)
    (hprovider : e'.lo.provider = some (.ok articles)) :
    StoreHolds settings e'.cacheKey articles db
      ((b.worked m command executed db).landed n) := by
  have hbefore : ¬Superseded b n e'.cacheKey :=
    fun hs => hnew (hs.next (worked_next (execute_now hexec)))
  cases command with
  | storeGet =>
    cases hexec
    simp only [worked, recordLanded, Function.update_eq_self]
    exact hi.store n e' articles hn hbefore hprovider
  | storeSet k value ttlSec =>
    cases hexec
    exact hi.store_set hm hp hnone hn hnew hprovider
  | storeDelete k =>
    cases hexec
    simp only [worked, recordLanded, Function.update_eq_self]
    exact hi.store_delete hm hp hn hbefore hprovider
  | _ => cases hexec

end

omit hi in
theorem recordLanded_le {command : Command} (h : ∀ w ∈ landed, w.2 ≤ db.now) :
    ∀ w ∈ recordLanded db landed command, w.2 ≤ db.now := by
  intro w hw
  cases command with
  | storeSet =>
    rcases List.mem_cons.mp hw with rfl | hw
    · exact Nat.le_refl _
    · exact h w hw
  | _ => exact h w hw

theorem executeWork
    (hs : backedStep settings platform leases honest b (.executeWork m) = some b') :
    Backed.Inv settings honest b' := by
  obtain ⟨e, command, executed, db, hm, hp, hnone, hexec, rfl⟩ := backedStep_executeWork hs
  have hlt := (List.getElem?_eq_some_iff.mp hm).1
  refine ⟨hi.ok, hi.known, fun i e' => hi.entry_worked hm hp hnone hexec, hi.lookups,
    fun n hn => ?_, hi.newLookups, fun n => ?_, hi.ordered,
    fun n e' articles => hi.store_worked hm hp hnone hexec⟩
  · have hnm := Nat.ne_of_gt (Nat.lt_of_lt_of_le hlt hn)
    rw [worked_works hnm, worked_landed hnm]
    exact hi.newWorks n hn
  · show ∀ w ∈ (b.worked m command executed db).landed n, w.2 ≤ db.now
    rw [execute_now hexec]
    by_cases hnm : n = m
    · subst hnm
      rw [worked_landed_self]
      exact recordLanded_le (hi.clock n)
    · rw [worked_landed hnm]
      exact hi.clock n

end Backed.Inv

/-! ## Events of the process -/

section
variable {Φ Φ' : Tracking}

theorem Tracked.keep (h : Tracked settings honest b m e Φ)
    (hk : EntryKeeps b.process.sh b'.process.sh e e') (hworks : b'.works m = b.works m)
    (hlanded : b'.landed m = b.landed m)
    (hkeep : ∀ reads pending executed log, Φ reads pending executed log →
      Φ' reads pending executed log) : Tracked settings honest b' m e' Φ' := by
  obtain ⟨log, hback, hΦ⟩ := h
  refine ⟨log, by rw [hworks, hlanded]; exact hback.keep hk, ?_⟩
  rw [hk.reads, hk.promise, hworks]
  exact hkeep _ _ _ _ hΦ

/-- The store's answer takes `Φ` to `Φ'`. -/
def Delivers (settings : Settings) (honest : Bool) (Φ Φ' : Tracking) : Prop :=
  ∀ (executed : Option Executed) (answer : (c : Command) → Option (Reply c))
    (p p' : Prog Command Reply (Except JsError ArticleSearchResult)) (s s' : Scene),
    (jobHost settings honest).resume (storeAnswer executed answer) p s.state =
      some (p', s'.state) →
    (jobHost settings honest).posted.resume (storeAnswer executed answer) p s = some (p', s') →
    Φ s.state.lo.reads p.pending executed s.log → Φ' s'.state.lo.reads p'.pending none s'.log

theorem Tracked.reply {answer : (c : Command) → Option (Reply c)}
    {p : Prog Command Reply (Except JsError ArticleSearchResult)}
    (h : Tracked settings honest b m e Φ)
    (hr : (jobHost settings honest).resume (storeAnswer (b.works m) answer) e.promise
      ⟨b.process.sh, e.lo⟩ = some (p, v)) (hsh : b'.process.sh = v.sh)
    (hworks : b'.works m = none) (hlanded : b'.landed m = b.landed m)
    (hΦ : Delivers settings honest Φ Φ') :
    Tracked settings honest b' m { e with lo := v.lo, promise := p } Φ' := by
  obtain ⟨log, hback, hfits⟩ := h
  obtain ⟨log', hposted, hback'⟩ := hback.reply hr
  refine ⟨log', by rw [hsh, hworks, hlanded]; exact hback', ?_⟩
  rw [hworks]
  exact hΦ _ _ _ _ ⟨⟨b.process.sh, e.lo⟩, log⟩ ⟨v, log'⟩ hr hposted hfits

/-- A new search has neither read nor written anything. -/
theorem Tracked.born {s : Process} (h : Born settings platform leases honest s b'.process m e)
    (hworks : b'.works m = none) (hlanded : b'.landed m = [])
    (hΦ : ∀ pending log, (∀ k, ¬Unserved k log) → Φ [] pending none log) :
    Tracked settings honest b' m e Φ := by
  obtain ⟨-, -, -, sh, randoms, uuid, hstart⟩ := h
  obtain ⟨hreads, log, hback, hu⟩ := EntryBacked.start hstart
  refine ⟨log, by rw [hworks, hlanded]; exact hback, ?_⟩
  rw [hworks, hreads]
  exact hΦ _ log hu

end

@[simp] theorem delivered_landed : (b.delivered event).landed = b.landed := by
  cases event <;> rfl

@[simp] theorem delivered_db : (b.delivered event).db = b.db := by
  cases event <;> rfl

theorem delivered_works (h : b.works n = none) : (b.delivered event).works n = none := by
  cases event with
  | jobReply m answer =>
    show Function.update b.works m none n = none
    by_cases hnm : n = m
    · rw [hnm, Function.update_self]
    · rwa [Function.update_of_ne hnm]
  | _ => exact h

theorem delivered_lookups (h : b.lookups i = none) : (b.delivered event).lookups i = none := by
  cases event with
  | callReply j answer =>
    show Function.update b.lookups j none i = none
    by_cases hij : i = j
    · rw [hij, Function.update_self]
    · rwa [Function.update_of_ne hij]
  | _ => exact h

namespace Backed.Inv
variable {p : Process} (hi : Backed.Inv settings honest b)
  (hs : step settings platform leases honest b.process (b.answered event) = some p)
include hi hs

theorem follows : Follows settings honest (fun _ => True) (b.answered event).repliesTo
    b.process p := by
  refine step_follows hi.ok hi.known ?_ hs
  cases event <;> first | trivial | exact fun _ _ _ => trivial

theorem evolves : Evolves settings platform leases honest b.process p (b.answered event) :=
  step_evolves hi.ok hi.known hs

theorem next_process : b.Next { b.delivered event with process := p } :=
  ⟨(hi.follows hs).grow.weaken, by simp, by simp⟩

theorem lastGood_process
    (h : LastGood settings { b.delivered event with process := p } n key articles t) :
    LastGood settings b n key articles t :=
  hi.lastGood_before h (hi.next_process hs) (by simpa using h.landed)

section
variable {Φ Φ' : Tracking}

/-- What an event does to a search that is there. -/
theorem tracked_moved (hm : b.process.entries[m]? = some e)
    (h : Tracked settings honest b m e Φ)
    (hkeep : ∀ reads pending executed log, Φ reads pending executed log →
      Φ' reads pending executed log) (hΦ : Delivers settings honest Φ Φ') :
    ∃ e', p.entries[m]? = some e' ∧ e'.cacheKey = e.cacheKey ∧
      Tracked settings honest { b.delivered event with process := p } m e' Φ' := by
  have hother : (∀ n answer, event ≠ .jobReply n answer) → ∃ e', p.entries[m]? = some e' ∧
      e'.cacheKey = e.cacheKey ∧
      Tracked settings honest { b.delivered event with process := p } m e' Φ' := by
    intro hno
    obtain ⟨e', hm', hk⟩ := (hi.evolves hs).kept (by cases event <;> simp_all [answered]) m e hm
    refine ⟨e', hm', hk.cacheKey, h.keep hk ?_ (by simp) hkeep⟩
    cases event <;> simp_all [delivered]
  cases event with
  | jobReply n answer =>
    obtain ⟨f, promise, v, hn, hr, rfl⟩ := step_jobReply hs
    by_cases hnm : n = m
    · subst hnm
      cases hn.symm.trans hm
      refine ⟨_, getElem?_set_here hm _, rfl,
        h.reply hr rfl ?_ (by simp) hΦ⟩
      exact Function.update_self ..
    · refine ⟨e, (List.getElem?_set_ne hnm).trans hm, rfl,
        h.keep (.shared (fun h => (forward_resume_any hr).shutdown.trans h) e) ?_ (by simp) hkeep⟩
      exact Function.update_of_ne (Ne.symm hnm) ..
  | _ => exact hother nofun

/-- A search that is there now was there before or is new. -/
theorem entry_cases (hn : p.entries[n]? = some e') :
    (∃ e, b.process.entries[n]? = some e) ∨ b.process.entries.length = n ∧
      b.process.inFlightSearches e'.cacheKey = none ∧
      ∀ Φ : Tracking,
        (∀ pending log, (∀ k, ¬Unserved k log) → Φ [] pending none log) →
        Tracked settings honest { b.delivered event with process := p } n e' Φ := by
  cases he : b.process.entries[n]? with
  | some e => exact .inl ⟨e, rfl⟩
  | none =>
    have hborn := (hi.evolves hs).born n e' hn he
    obtain ⟨hworks, hlanded⟩ := hi.newWorks n (List.getElem?_eq_none_iff.mp he)
    refine .inr ⟨hborn.index.symm, hborn.unmapped, fun Φ => ?_⟩
    exact .born hborn (delivered_works hworks) (by simpa using hlanded)

end

theorem entry_process (hn : p.entries[n]? = some e') :
    Tracked settings honest { b.delivered event with process := p } n e'
      (HasOnly settings { b.delivered event with process := p } n e'.cacheKey) := by
  rcases hi.entry_cases hs hn with ⟨e, he⟩ | ⟨-, -, hnew⟩
  · obtain ⟨e1, hn1, hk, htracked⟩ := hi.tracked_moved hs he (hi.entries n e he)
      (fun reads pending executed log h m hm articles t hlast =>
        h m hm articles t (hi.lastGood_process hs hlast))
      (fun executed answer q q' s s' hr hposted h m hm articles t hlast => by
        obtain ⟨hf, hu⟩ := h m hm articles t (hi.lastGood_process hs hlast)
        exact ⟨hf.resume hr, fun h' => hu (hf.served hposted h')⟩)
    cases hn.symm.trans hn1
    rw [hk]
    exact htracked
  · exact hnew _ fun pending log hu m hm articles t _ =>
      ⟨.idle (fun r hr => nomatch hr), hu _⟩

theorem settled_process (hn : b.process.entries[n]? = some e) :
    ∃ e', p.entries[n]? = some e' ∧ e'.cacheKey = e.cacheKey ∧
      (e.settled = true → e'.settled = true) := by
  obtain ⟨e', hn', hnext⟩ := (step_advances hi.ok hs).entry hn
  exact ⟨e', hn', hnext.key, hnext.settled⟩

/-- A search is created only when those before it for its key have settled. -/
theorem ordered_process (hmn : m < n) (hm : p.entries[m]? = some e)
    (hn : p.entries[n]? = some e') (hk : e.cacheKey = e'.cacheKey) : e.settled = true := by
  obtain ⟨f, hf⟩ : ∃ f, b.process.entries[m]? = some f := by
    rcases hi.entry_cases hs hm with hold | ⟨hlen, -⟩
    · exact hold
    · rcases hi.entry_cases hs hn with ⟨g, hg⟩ | ⟨hlen', -⟩
      · have := (List.getElem?_eq_some_iff.mp hg).1
        omega
      · omega
  obtain ⟨e1, hm1, hkey, hsettled⟩ := hi.settled_process hs hf
  cases hm.symm.trans hm1
  refine hsettled ?_
  rcases hi.entry_cases hs hn with ⟨g, hg⟩ | ⟨-, hmap, -⟩
  · obtain ⟨g', hn', hkey', -⟩ := hi.settled_process hs hg
    cases hn.symm.trans hn'
    exact hi.ordered m n f g hmn hf hg (hkey.symm.trans (hk.trans hkey'))
  · by_contra hopen
    have := hi.ok.accounted.mapped m f hf (eq_false_of_ne_true hopen)
    rw [← hkey, hk, hmap] at this
    cases this

theorem lookups_process {c' : Call} (hc : p.calls[i]? = some c') :
    c'.lookup.Only (LooksUp (searchCacheKey c'.options)) := by
  have hcalls := (hi.evolves hs).calls
  cases hi' : b.process.calls[i]? with
  | none =>
    rcases (hcalls.arrived i c' hc hi').lookup with h | h
    · rw [h]
      trivial
    · rw [h]
      exact only_readCachedArticles _
  | some c =>
    obtain ⟨c1, hc1, hmoves⟩ := hcalls.moved i c hi'
    cases hc.symm.trans hc1
    cases hmoves with
    | keeps hk =>
      rw [hk.lookup, hk.options]
      exact hi.lookups i c hi'
    | looked answer v hev hr hlo ho ht =>
      rw [ho]
      exact (hi.lookups i c hi').resume hr

end Backed.Inv

theorem Backed.Inv.process (hi : Backed.Inv settings honest b)
    (hs : backedStep settings platform leases honest b (.process event) = some b') :
    Backed.Inv settings honest b' := by
  obtain ⟨p, hp, rfl⟩ := backedStep_process hs
  have hfollows := hi.follows hp
  refine ⟨(step_advances hi.ok hp).ok hi.ok, hfollows.known, fun n e' hn => ?_,
    fun i c' hc => hi.lookups_process hp hc, fun n hn => ?_, fun i hj => ?_, ?_,
    fun m n e e' => hi.ordered_process hp, fun n e' articles hn hnew hprovider => ?_⟩
  · exact hi.entry_process hp hn
  · have hlen : b.process.entries.length ≤ n := by
      by_contra hlt
      obtain ⟨e', he', -⟩ := hi.settled_process hp
        (List.getElem?_eq_getElem (Nat.lt_of_not_le hlt))
      exact absurd hn (Nat.not_le_of_lt (List.getElem?_eq_some_iff.mp he').1)
    obtain ⟨hworks, hlanded⟩ := hi.newWorks n hlen
    exact ⟨delivered_works hworks, by simpa using hlanded⟩
  · have hlen : b.process.calls.length ≤ i := by
      by_contra hlt
      obtain ⟨c', hc', -⟩ := (hi.evolves hp).calls.moved i _
        (List.getElem?_eq_getElem (Nat.lt_of_not_le hlt))
      exact absurd hj (Nat.not_le_of_lt (List.getElem?_eq_some_iff.mp hc').1)
    exact delivered_lookups (hi.newLookups i hlen)
  · simpa using hi.clock
  · simpa using hi.store_before (hi.next_process hp) hn hnew hprovider

/-! ## Every run -/

theorem Backed.Inv.initial (settings : Settings) (honest : Bool) (db : Db) :
    Backed.Inv settings honest (.initial db) where
  ok := .initial
  known := .initial
  entries _ _ h := nomatch h
  lookups _ _ h := nomatch h
  newWorks _ _ := ⟨rfl, rfl⟩
  newLookups _ _ := rfl
  clock _ _ h := nomatch h
  ordered _ _ _ _ _ h := nomatch h
  store _ _ _ h := nomatch h

theorem Backed.Inv.step {event : BackedEvent} (hi : Backed.Inv settings honest b)
    (hs : backedStep settings platform leases honest b event = some b') :
    Backed.Inv settings honest b' := by
  cases event with
  | process event => exact hi.process hs
  | executeLookup i => exact hi.executeLookup hs
  | executeWork n => exact hi.executeWork hs
  | elapse ms =>
    cases hs
    exact hi.weaken (Nat.le_add_right _ _) (fun _ => weaker_elapse _ _ ms) hi.newLookups
  | sweep k =>
    cases hs
    exact hi.weaken (Nat.le_of_eq (Keyspace.sweep_now _ _).symm) (fun _ => weaker_sweep _ k _)
      hi.newLookups

/-- In every reachable state of a process and its store. -/
theorem inv_of_reachable
    (h : Reachable (backedStep settings platform leases honest) (.initial db) b) :
    Backed.Inv settings honest b :=
  h.invariant (P := Backed.Inv settings honest) (.initial settings honest db)
    fun _ _ _ hi hs => hi.step hs

theorem Backed.Next.refl (b : Backed) : b.Next b :=
  ⟨.refl _ _, Nat.le_refl _, fun _ _ => id⟩

theorem Backed.Next.trans {b'' : Backed} (h : b.Next b') (h' : b'.Next b'') : b.Next b'' where
  entries n e hn := by
    obtain ⟨e1, hn1, hg1⟩ := h.entries n e hn
    obtain ⟨e2, hn2, hg2⟩ := h'.entries n e1 hn1
    exact ⟨e2, hn2, hg2.cacheKey.trans hg1.cacheKey, hg2.options.trans hg1.options,
      hg2.creator.trans hg1.creator, fun r => hg2.provider r ∘ hg1.provider r,
      fun w => hg2.writes w ∘ hg1.writes w, fun r => hg2.ended r ∘ hg1.ended r,
      fun hno => absurd trivial hno⟩
  now := Nat.le_trans h.now h'.now
  landed n w := h'.landed n w ∘ h.landed n w

theorem Backed.Inv.next {event : BackedEvent} (hi : Backed.Inv settings honest b)
    (hs : backedStep settings platform leases honest b event = some b') : b.Next b' := by
  cases event with
  | process event =>
    obtain ⟨p, hp, rfl⟩ := backedStep_process hs
    exact hi.next_process hp
  | executeLookup i =>
    obtain ⟨c, command, executed, db, -, -, -, hexec, rfl⟩ := backedStep_executeLookup hs
    exact ⟨.refl _ _, Nat.le_of_eq (execute_now hexec).symm, fun _ _ => id⟩
  | executeWork n =>
    obtain ⟨e, command, executed, db, -, -, -, hexec, rfl⟩ := backedStep_executeWork hs
    exact worked_next (execute_now hexec)
  | elapse ms =>
    cases hs
    exact ⟨.refl _ _, Nat.le_add_right _ _, fun _ _ => id⟩
  | sweep k =>
    cases hs
    exact ⟨.refl _ _, Nat.le_of_eq (Keyspace.sweep_now _ _).symm, fun _ _ => id⟩

end NewsApi.Services
