import NewsApi.Services.Landed

/-! # What the store keeps of the last good answer

The search for a key that has written last is the last good answer: what can
be read under the fresh key is what it wrote, and until the stale entry's time
is over that is what can be read under the stale key. Later searches for the
key find it there. -/
namespace NewsApi.Services
open NewsApi.Async NewsApi.Text NewsApi.Types NewsApi.Config NewsApi.Errors NewsApi.Cache
open NewsApi.Runtime NewsApi.Redis

/-- The store has executed a write of a later search for the key. -/
def Superseded (b : Backed) (n : Nat) (key : JsString) : Prop :=
  ∃ m e, n < m ∧ b.process.entries[m]? = some e ∧ e.cacheKey = key ∧ b.landed m ≠ []

/-- When the fresh and the stale entry end that were written at `t`. -/
def freshUntil (t : Nat) : Nat := t + TTL_SEC * 1000

def staleUntil (settings : Settings) (t : Nat) : Nat := t + settings.staleCacheTtlSec * 1000

/-- What the store has of the writes of a search that are executed. -/
structure StoreHolds (settings : Settings) (key : JsString) (articles : ArticleList) (db : Db)
    (landed : List (JsString × Nat)) : Prop where
  fresh : ∀ t, (key, t) ∈ landed → ∀ x, db.lookup key = some x →
    x = ⟨articles.value, some (freshUntil t)⟩
  stale : ∀ t, (staleCacheKey key, t) ∈ landed → db.now ≤ staleUntil settings t →
    db.lookup (staleCacheKey key) = some ⟨articles.value, some (staleUntil settings t)⟩
  order : ∀ t, (staleCacheKey key, t) ∈ landed → ∃ t' ≤ t, (key, t') ∈ landed

/-- Both writes of the search are executed, nothing newer is written, and the
stale entry's time is not over. -/
structure LastGood (settings : Settings) (b : Backed) (n : Nat) (key : JsString)
    (articles : ArticleList) (t : Nat) : Prop where
  search : ∃ e, b.process.entries[n]? = some e ∧ e.cacheKey = key ∧
    e.lo.provider = some (.ok articles)
  newest : ¬Superseded b n key
  landed : (staleCacheKey key, t) ∈ b.landed n
  alive : b.db.now ≤ staleUntil settings t

/-- What was read, or is on its way, is the last good answer. -/
structure Fits (key : JsString) (articles : ArticleList) (reads : List (JsString × Json))
    (pending : Option Command) (executed : Option Executed) : Prop where
  reads : ∀ r ∈ reads, r.1 = key ∨ r.1 = staleCacheKey key → r.2 = articles.value
  fresh : pending = some (.storeGet key) → ∀ x, executed = some (.value x) →
    x = none ∨ x = some articles.value
  stale : pending = some (.storeGet (staleCacheKey key)) → ∀ x, executed = some (.value x) →
    x = some articles.value

/-- A statement about what a search has read, what it waits for, the store's
answer to that, and its post. -/
abbrev Tracking := List (JsString × Json) → Option Command → Option Executed → Log → Prop

def Tracked (settings : Settings) (honest : Bool) (b : Backed) (m : Nat) (e : InFlightSearch)
    (Φ : Tracking) : Prop :=
  ∃ log, EntryBacked settings honest b.process.sh e (b.works m) (b.landed m) log ∧
    Φ e.lo.reads e.promise.pending (b.works m) log

/-- Search `m` has only the last good answer to read, if it came after it. -/
def HasOnly (settings : Settings) (b : Backed) (m : Nat) (key : JsString) : Tracking :=
  fun reads pending executed log => ∀ n < m, ∀ articles t,
    LastGood settings b n key articles t →
      Fits key articles reads pending executed ∧ ¬Unserved (staleCacheKey key) log

structure Backed.Inv (settings : Settings) (honest : Bool) (b : Backed) : Prop where
  ok : b.process.Ok
  known : Known settings honest (fun _ => True) b.process
  entries : ∀ (n : Nat) e, b.process.entries[n]? = some e →
    Tracked settings honest b n e (HasOnly settings b n e.cacheKey)
  lookups : ∀ (i : Nat) c, b.process.calls[i]? = some c →
    c.lookup.Only (LooksUp (searchCacheKey c.options))
  newWorks : ∀ n, b.process.entries.length ≤ n → b.works n = none ∧ b.landed n = []
  newLookups : ∀ i, b.process.calls.length ≤ i → b.lookups i = none
  clock : ∀ n, ∀ w ∈ b.landed n, w.2 ≤ b.db.now
  /-- one search for a key after the other -/
  ordered : ∀ (m n : Nat) e f, m < n → b.process.entries[m]? = some e →
    b.process.entries[n]? = some f → e.cacheKey = f.cacheKey → e.settled = true
  store : ∀ (n : Nat) e articles, b.process.entries[n]? = some e →
    ¬Superseded b n e.cacheKey → e.lo.provider = some (.ok articles) →
    StoreHolds settings e.cacheKey articles b.db (b.landed n)

variable {settings : Settings} {platform : Platform} {leases honest : Bool} {b b' : Backed}
  {sh : Shared} {e : InFlightSearch} {executed : Option Executed}
  {landed : List (JsString × Nat)} {log : Log} {key k : JsString} {articles : ArticleList}
  {db db' : Db} {n m t : Nat}

/-! ## The commands of a search -/

/-- The first write that is executed is that of the fresh entry. -/
theorem EntryBacked.written (h : EntryBacked settings honest sh e executed landed log)
    (hl : landed ≠ []) :
    (∃ articles, e.lo.provider = some (.ok articles)) ∧ ∃ t, (e.cacheKey, t) ∈ landed := by
  have hexec : executedWrites e executed = e.lo.writes ∨
      executedWrites e executed = e.lo.writes.tail := by
    unfold executedWrites
    split
    · exact .inr rfl
    · exact .inl rfl
  have hlanded := h.landed
  have hfresh : e.cacheKey ∈ landed.map Prod.fst →
      ∃ t, (e.cacheKey, t) ∈ landed := fun hmem => by
    obtain ⟨⟨k, t⟩, hw, rfl⟩ := List.mem_map.mp hmem
    exact ⟨t, hw⟩
  have hnone : executedWrites e executed = [] → False := fun hnil => by
    rw [hnil] at hlanded
    exact hl (List.map_eq_nil_iff.mp hlanded)
  cases h.orderly.writes with
  | unwritten hw =>
    change e.lo.writes = [] at hw
    rw [hw] at hexec
    exact (hnone (hexec.elim id id)).elim
  | fresh articles hp hw =>
    change e.lo.writes = _ at hw
    rw [hw] at hexec
    rcases hexec with hexec | hexec
    · rw [hexec] at hlanded
      exact ⟨⟨articles, hp⟩, hfresh (by simp [hlanded, freshWrite])⟩
    · exact (hnone hexec).elim
  | both articles hp hw =>
    change e.lo.writes = _ at hw
    rw [hw] at hexec
    refine ⟨⟨articles, hp⟩, hfresh ?_⟩
    rcases hexec with hexec | hexec
    all_goals
      rw [hexec] at hlanded
      simp [hlanded, freshWrite]

/-- A write that is to be executed. -/
theorem EntryBacked.set {value : Json} {ttlSec : Nat}
    (h : EntryBacked settings honest sh e none landed log)
    (hp : e.promise.pending = some (.storeSet k value ttlSec)) :
    ∃ articles, e.lo.provider = some (.ok articles) ∧ value = articles.value ∧
      (k = e.cacheKey ∧ ttlSec = TTL_SEC ∧ landed = [] ∨
        k = staleCacheKey e.cacheKey ∧ ttlSec = settings.staleCacheTtlSec ∧
          ∃ t, landed = [(e.cacheKey, t)]) := by
  obtain ⟨rest, hlatest⟩ := h.latest k value ttlSec hp
  have hlanded := h.landed
  have hexec : executedWrites e none = e.lo.writes.tail := by
    unfold executedWrites
    rw [hp]
  rw [hexec] at hlanded
  cases h.orderly.writes with
  | unwritten hw =>
    change e.lo.writes = [] at hw
    rw [hw] at hlatest
    cases hlatest
  | fresh articles hprovider hw =>
    change e.lo.writes = _ at hw
    rw [hw] at hlatest hlanded
    cases hlatest
    refine ⟨articles, hprovider, rfl, .inl ⟨rfl, rfl, ?_⟩⟩
    exact List.map_eq_nil_iff.mp hlanded
  | both articles hprovider hw =>
    change e.lo.writes = _ at hw
    rw [hw] at hlatest hlanded
    cases hlatest
    refine ⟨articles, hprovider, rfl, .inr ⟨rfl, rfl, ?_⟩⟩
    obtain ⟨⟨k, t⟩, rfl, hk⟩ := List.map_eq_singleton_iff.mp hlanded
    cases hk
    exact ⟨t, rfl⟩

/-- An entry that is to be deleted. -/
theorem EntryBacked.delete (h : EntryBacked settings honest sh e executed landed log)
    (hp : e.promise.pending = some (.storeDelete k)) :
    landed = [] ∧ (k = e.cacheKey ∨
      k = staleCacheKey e.cacheKey ∧ Unserved (staleCacheKey e.cacheKey) log) := by
  obtain ⟨v, rest, hlog⟩ := h.sent _ hp
  rcases h.orderly.deletes with hno | ⟨hw, k', v', rest', hlog', hk⟩
  · exact absurd hlog (hno k v rest)
  · change e.lo.writes = [] at hw
    change log = _ at hlog'
    cases hlog.symm.trans hlog'
    constructor
    · have hlanded := h.landed
      have hexec : executedWrites e executed = [] := by
        unfold executedWrites
        rw [hp]
        exact hw
      rw [hexec] at hlanded
      exact List.map_eq_nil_iff.mp hlanded
    · rw [hlog]
      refine hk.imp_right fun ⟨hk, hu⟩ => ⟨hk, ?_⟩
      rw [← hk]
      exact hu.cons

/-! ## The store -/

/-- The fresh entry of the key may be gone, the stale one only after its time. -/
structure Weaker (key : JsString) (db db' : Db) : Prop where
  now : db.now ≤ db'.now
  fresh : ∀ x, db'.lookup key = some x → db.lookup key = some x
  stale : ∀ x, db.lookup (staleCacheKey key) = some x → x.alive db'.now = true →
    db'.lookup (staleCacheKey key) = some x

theorem Weaker.of_lookup (hnow : db'.now = db.now) (hf : db'.lookup key = db.lookup key)
    (hs : db'.lookup (staleCacheKey key) = db.lookup (staleCacheKey key)) : Weaker key db db' where
  now := hnow ▸ Nat.le_refl _
  fresh _ h := hf ▸ h
  stale _ h _ := hs ▸ h

theorem weaker_elapse (key : JsString) (db : Db) (ms : Nat) : Weaker key db (db.elapse ms) where
  now := Nat.le_add_right _ _
  fresh _ h := Keyspace.lookup_of_elapse h
  stale _ h ha := Keyspace.lookup_elapse_alive h ha

theorem weaker_sweep (key k : JsString) (db : Db) : Weaker key db (db.sweep k) :=
  .of_lookup (by simp) (Keyspace.lookup_sweep ..) (Keyspace.lookup_sweep ..)

theorem weaker_del (db : Db) (hk : k ≠ staleCacheKey key) : Weaker key db (db.del k).2 where
  now := (Keyspace.del_now db k).symm ▸ Nat.le_refl _
  fresh x h := by
    by_cases hkey : key = k
    · rw [hkey, Keyspace.lookup_del_self] at h
      cases h
    · rwa [Keyspace.lookup_del_ne db hkey] at h
  stale x h _ := by
    rwa [Keyspace.lookup_del_ne db (Ne.symm hk)]

theorem weaker_setex (db : Db) {ttlSec : Nat} {value : Json} (hf : key ≠ k)
    (hs : staleCacheKey key ≠ k) : Weaker key db (db.setex k ttlSec value) :=
  .of_lookup rfl (Keyspace.lookup_setex_ne db ttlSec value hf)
    (Keyspace.lookup_setex_ne db ttlSec value hs)

theorem StoreHolds.weaker (h : StoreHolds settings key articles db landed)
    (hw : Weaker key db db') : StoreHolds settings key articles db' landed where
  fresh t ht x hx := h.fresh t ht x (hw.fresh x hx)
  stale t ht hnow := by
    refine hw.stale _ (h.stale t ht (Nat.le_trans hw.now hnow)) ?_
    simpa [Entry.alive] using hnow
  order := h.order

theorem StoreHolds.nil : StoreHolds settings key articles db [] where
  fresh _ h := nomatch h
  stale _ h := nomatch h
  order _ h := nomatch h

/-- The fresh entry is written. -/
theorem StoreHolds.setFresh (hkey : key ≠ staleCacheKey key) :
    StoreHolds settings key articles (db.setex key TTL_SEC articles.value) [(key, db.now)] where
  fresh t ht x hx := by
    cases List.mem_singleton.mp ht
    rw [Keyspace.lookup_setex_self] at hx
    exact (Option.some.inj hx).symm
  stale t ht := absurd (congrArg Prod.fst (List.mem_singleton.mp ht)).symm hkey
  order t ht := absurd (congrArg Prod.fst (List.mem_singleton.mp ht)).symm hkey

/-- The stale entry is written. -/
theorem StoreHolds.setStale (h : StoreHolds settings key articles db [(key, t)])
    (hkey : key ≠ staleCacheKey key) (ht : t ≤ db.now) :
    StoreHolds settings key articles
      (db.setex (staleCacheKey key) settings.staleCacheTtlSec articles.value)
      [(staleCacheKey key, db.now), (key, t)] where
  fresh t' ht' x hx := by
    rw [Keyspace.lookup_setex_ne db _ _ hkey] at hx
    refine h.fresh t' ?_ x hx
    rcases List.mem_cons.mp ht' with heq | ht'
    · exact absurd (congrArg Prod.fst heq) hkey
    · exact ht'
  stale t' ht' _ := by
    rcases List.mem_cons.mp ht' with heq | ht'
    · cases heq
      exact Keyspace.lookup_setex_self ..
    · exact absurd (congrArg Prod.fst (List.mem_singleton.mp ht')).symm hkey
  order t' ht' := by
    rcases List.mem_cons.mp ht' with heq | ht'
    · cases heq
      exact ⟨t, ht, by simp⟩
    · exact absurd (congrArg Prod.fst (List.mem_singleton.mp ht')).symm hkey

/-- What a read of the key finds while the stale entry is alive. -/
theorem StoreHolds.get (h : StoreHolds settings key articles db landed)
    (ht : (staleCacheKey key, t) ∈ landed) (ha : db.now ≤ staleUntil settings t) :
    (db.get key = none ∨ db.get key = some articles.value) ∧
      db.get (staleCacheKey key) = some articles.value := by
  constructor
  · obtain ⟨t', -, ht'⟩ := h.order t ht
    unfold Keyspace.get
    cases hx : db.lookup key with
    | none => exact .inl rfl
    | some x =>
      obtain rfl := h.fresh t' ht' x hx
      exact .inr rfl
  · unfold Keyspace.get
    rw [h.stale t ht ha]
    rfl

end NewsApi.Services
