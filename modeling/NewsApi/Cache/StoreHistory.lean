import NewsApi.Async.Run
import NewsApi.Cache.MemoryStoreSteps

/-! # A bounded LRU map with expiry

What the in-process store is for, told by what has happened to it: the calls,
the clock, and the periodic check that the cache library makes on its own. -/
namespace NewsApi.Cache.StoreHistory
open NewsApi.Text NewsApi.Collections NewsApi.Async NewsApi.Cache.MemoryStore

variable {α : Type}

inductive Op (α : Type) where
  | get (key : JsString)
  | set (key : JsString) (value : α) (ttlSec : Option Rat)
  | delete (key : JsString)
  | advance (ms : Nat)
  | checkData

structure Record (α : Type) where
  op : Op α
  now : Nat
  /-- the keys that were held -/
  held : List JsString
  /-- what a `get` returned -/
  found : Option α
  /-- the keys other than its own that a `set` removed -/
  evicted : List JsString

structure Process (α : Type) where
  store : MemoryStore α
  now : Nat
  /-- newest first -/
  history : List (Record α)

def start (α : Type) (maxKeys now : Nat) : Process α :=
  { store := createMemoryStore α maxKeys, now := now, history := [] }

namespace Process

def next (p : Process α) (op : Op α) (found : Option α) (evicted : List JsString)
    (store : MemoryStore α) : Process α :=
  { p with
    store := store
    history := ⟨op, p.now, p.store.cache.keys, found, evicted⟩ :: p.history }

/-- The keys other than `key` that are held now and not in `store`. -/
def lost (p : Process α) (key : JsString) (store : MemoryStore α) : List JsString :=
  p.store.cache.keys.filter fun j => decide (j ≠ key ∧ j ∉ store.cache.entries)

end Process

/-- No successor: the call threw. -/
def step (p : Process α) (op : Op α) : Option (Process α) :=
  match op with
  | .get key =>
    let (found, store) := p.store.get p.now key
    some (p.next op found [] store)
  | .set key value ttlSec =>
    (p.store.set p.now key value ttlSec).toOption.map fun store =>
      p.next op none (p.lost key store) store
  | .delete key => some (p.next op none [] (p.store.delete key))
  | .advance ms => some { p.next op none [] p.store with now := p.now + ms }
  | .checkData =>
    some (p.next op none [] { p.store with cache := p.store.cache.checkData p.now })

theorem step_set {p : Process α} {key : JsString} {value : α} {ttlSec : Option Rat}
    {store : MemoryStore α} (h : p.store.set p.now key value ttlSec = .ok store) :
    step p (.set key value ttlSec) =
      some (p.next (.set key value ttlSec) none (p.lost key store) store) := by
  have hstep : step p (.set key value ttlSec) = (p.store.set p.now key value ttlSec).toOption.map
      fun store => p.next (.set key value ttlSec) none (p.lost key store) store := rfl
  rw [hstep, h]
  rfl

/-! ## What a history says -/

/-- What the latest `set` of the key stored, unless the key was deleted or
evicted since. -/
def standing (key : JsString) : List (Record α) → Option (WrappedValue α)
  | [] => none
  | r :: older =>
    match r.op with
    | .set k value ttlSec =>
      if k = key then some ⟨value, expiryOf r.now (ttlSec.getD TTL_SEC)⟩
      else if key ∈ r.evicted then none
      else standing key older
    | .delete k => if k = key then none else standing key older
    | _ => standing key older

/-- A `set` or a successful `get` of the key. -/
def Record.uses (key : JsString) (r : Record α) : Bool :=
  match r.op with
  | .set k _ _ => k = key
  | .get k => k = key && r.found.isSome
  | _ => false

/-- When the key was last used. -/
def lastUse (key : JsString) : List (Record α) → Nat
  | [] => 0
  | r :: older => if r.uses key then older.length + 1 else lastUse key older

/-- Only a `set` of a key that is not held evicts, only from a full store, and
only the held key whose last use is the oldest. -/
structure EvictsOldest (maxKeys : Nat) (r : Record α) (older : List (Record α))
    (victim : JsString) : Prop where
  by_set : ∃ key value ttlSec, r.op = .set key value ttlSec ∧ key ∉ r.held
  full : r.held.length = maxKeys
  held : victim ∈ r.held
  oldest : ∀ j ∈ r.held, j ≠ victim → lastUse victim older < lastUse j older

structure BoundedLru (maxKeys : Nat) (p : Process α) : Prop where
  bounded : p.store.cache.statsKeys ≤ maxKeys
  set_ok : ∀ key value ttlSec, ∃ store, p.store.set p.now key value ttlSec = .ok store
  makes_room : ∀ key, ∃ roomy, Evicting (p.store.dropOwn p.now key) roomy ∧
    roomy.cache.statsKeys < maxKeys
  get_iff : ∀ key v, (p.store.get p.now key).1 = some v ↔
    ∃ e, standing key p.history = some e ∧ e.value = v ∧ e.expired p.now = false
  evicts : ∀ r older, (r :: older) <:+ p.history →
    ∀ victim ∈ r.evicted, EvictsOldest maxKeys r older victim

theorem lastUse_le (key : JsString) (history : List (Record α)) :
    lastUse key history ≤ history.length := by
  induction history with
  | nil => exact Nat.le_refl 0
  | cons r older ih =>
    unfold lastUse
    split
    · exact Nat.le_refl _
    · exact Nat.le_succ_of_le ih

theorem lastUse_of_uses {key : JsString} {r : Record α} (h : r.uses key = true)
    (older : List (Record α)) : lastUse key (r :: older) = older.length + 1 := if_pos h

theorem lastUse_of_not_uses {key : JsString} {r : Record α} (h : r.uses key = false)
    (older : List (Record α)) : lastUse key (r :: older) = lastUse key older :=
  if_neg (Bool.eq_false_iff.mp h)

/-! ## The invariant -/

/-- A held entry is the one that stands; one that is no longer held has expired. -/
def Faithful (now : Nat) (held standing : Option (WrappedValue α)) : Prop :=
  held = standing ∨ held = none ∧ ∀ e, standing = some e → e.expired now = true

namespace Faithful
variable {now : Nat} {held standing : Option (WrappedValue α)}

/-- An expired entry may go. -/
theorem filter (h : Faithful now held standing) :
    Faithful now (held.filter fun e => !e.expired now) standing := by
  rcases h with rfl | ⟨rfl, hexp⟩
  · cases held with
    | none => exact .inl rfl
    | some e =>
      cases hexp : e.expired now with
      | false => exact .inl (by simp [hexp])
      | true => exact .inr ⟨by simp [hexp], fun e' he => Option.some.inj he ▸ hexp⟩
  · exact .inr ⟨rfl, hexp⟩

theorem expired_later {e : WrappedValue α} {now' : Nat} (h : e.expired now = true)
    (hle : now ≤ now') :
    e.expired now' = true := by
  unfold WrappedValue.expired at h ⊢
  split at h
  · simp only [decide_eq_true_eq] at h ⊢
    have : (now : Rat) ≤ now' := Rat.natCast_le_natCast.mpr hle
    exact lt_of_lt_of_le h this
  · cases h

theorem later {now' : Nat} (h : Faithful now held standing) (hle : now ≤ now') :
    Faithful now' held standing :=
  h.imp_right fun ⟨hnone, hexp⟩ => ⟨hnone, fun e he => expired_later (hexp e he) hle⟩

theorem value_eq_some {v : α} (h : Faithful now held standing) :
    (held.filter fun e => !e.expired now).map WrappedValue.value = some v ↔
      ∃ e, standing = some e ∧ e.value = v ∧ e.expired now = false := by
  have hvalid : (held.filter fun e => !e.expired now).map WrappedValue.value = some v ↔
      ∃ e, held = some e ∧ e.value = v ∧ e.expired now = false := by
    simp only [Option.map_eq_some_iff, Option.filter_eq_some_iff, Bool.not_eq_true']
    exact exists_congr fun e => by tauto
  rw [hvalid]
  rcases h with rfl | ⟨rfl, hexp⟩
  · rfl
  · refine iff_of_false (fun ⟨e, he, _⟩ => nomatch he) fun ⟨e, he, _, hlive⟩ => ?_
    rw [hexp e he] at hlive
    cases hlive

end Faithful

structure Consistent (maxKeys : Nat) (p : Process α) : Prop where
  maxKeys_eq : p.store.cache.maxKeys = maxKeys
  bounded : p.store.cache.statsKeys ≤ maxKeys
  tracked : p.store.Tracked
  order : p.store.recency.keys.Pairwise fun a b => lastUse a p.history < lastUse b p.history
  faithful : ∀ key, Faithful p.now (p.store.cache.entries.lookup key) (standing key p.history)
  evicts : ∀ r older, (r :: older) <:+ p.history →
    ∀ victim ∈ r.evicted, EvictsOldest maxKeys r older victim

section
variable {maxKeys : Nat} {p p' : Process α}

theorem start_consistent (maxKeys now : Nat) : Consistent maxKeys (start α maxKeys now) where
  maxKeys_eq := rfl
  bounded := Nat.zero_le maxKeys
  tracked := fun j hj => absurd hj (AList.notMem_empty j)
  order := List.Pairwise.nil
  faithful := fun key => .inl (AList.lookup_empty key)
  evicts := fun _ _ h => nomatch List.suffix_nil.mp h

/-- What is to be shown of one more step. -/
theorem Consistent.next (h : Consistent maxKeys p) {op : Op α} {found : Option α}
    {evicted : List JsString} {store : MemoryStore α}
    (hmax : store.cache.maxKeys = maxKeys) (hbound : store.cache.statsKeys ≤ maxKeys)
    (htracked : store.Tracked)
    (horder : store.recency.keys.Pairwise fun a b =>
      lastUse a (p.next op found evicted store).history <
        lastUse b (p.next op found evicted store).history)
    (hfaithful : ∀ key, Faithful p.now (store.cache.entries.lookup key)
      (standing key (p.next op found evicted store).history))
    (hevicts : ∀ victim ∈ evicted, EvictsOldest maxKeys
      ⟨op, p.now, p.store.cache.keys, found, evicted⟩ p.history victim) :
    Consistent maxKeys (p.next op found evicted store) where
  maxKeys_eq := hmax
  bounded := hbound
  tracked := htracked
  order := horder
  faithful := hfaithful
  evicts := by
    intro r older hsuffix victim hvictim
    rcases List.suffix_cons_iff.mp hsuffix with heq | hsuffix
    · obtain ⟨rfl, rfl⟩ := List.cons.inj heq
      exact hevicts victim hvictim
    · exact h.evicts r older hsuffix victim hvictim

/-- An operation that uses no key keeps the order. -/
theorem Consistent.order_unused (h : Consistent maxKeys p) {keys : List JsString} {r : Record α}
    (hsub : keys.Sublist p.store.recency.keys) (huse : ∀ j, r.uses j = false) :
    keys.Pairwise fun a b => lastUse a (r :: p.history) < lastUse b (r :: p.history) := by
  refine (h.order.sublist hsub).imp fun hab => ?_
  rwa [lastUse_of_not_uses (huse _), lastUse_of_not_uses (huse _)]

/-- A key that is used goes to the end. -/
theorem Consistent.order_used (h : Consistent maxKeys p) {order : KeyOrder JsString}
    {key : JsString} {r : Record α} (hsub : order.keys.Sublist p.store.recency.keys)
    (huse : r.uses key = true) (hother : ∀ j, j ≠ key → r.uses j = false) :
    (order.touch key).keys.Pairwise fun a b =>
      lastUse a (r :: p.history) < lastUse b (r :: p.history) := by
  refine KeyOrder.touch_pairwise (h.order.sublist hsub)
    (fun j hj => lastUse_of_not_uses (hother j hj) p.history) fun j => ?_
  rw [lastUse_of_uses huse]
  exact Nat.lt_succ_of_le (lastUse_le j p.history)

/-- What is held stays tracked when entries go and their keys with them. -/
theorem Consistent.tracked_of (h : Consistent maxKeys p) {store : MemoryStore α}
    (hlookup : ∀ j e, store.cache.entries.lookup j = some e →
      j ∈ p.store.cache.entries ∧ (j ∈ p.store.recency → j ∈ store.recency)) :
    store.Tracked := by
  intro j hj
  obtain ⟨e, he⟩ := Option.isSome_iff_exists.mp (AList.lookup_isSome.mpr hj)
  obtain ⟨hheld, hstill⟩ := hlookup j e he
  exact hstill (h.tracked j hheld)

theorem Consistent.faithful_check (h : Consistent maxKeys p) (key j : JsString) :
    Faithful p.now ((p.store.cache.check p.now key).2.entries.lookup j)
      (standing j p.history) := by
  rw [NodeCache.lookup_check]
  split
  · rename_i hj
    exact hj ▸ (h.faithful j).filter
  · exact h.faithful j

theorem Consistent.get (h : Consistent maxKeys p) (key : JsString) :
    Consistent maxKeys
      (p.next (.get key) (p.store.get p.now key).1 [] (p.store.get p.now key).2) := by
  have hbound := (NodeCache.statsKeys_check_le p.now key p.store.cache).trans h.bounded
  have hmax : (p.store.cache.check p.now key).2.maxKeys = maxKeys :=
    NodeCache.check_maxKeys.trans h.maxKeys_eq
  cases hfound : (p.store.cache.get p.now key).1 with
  | none =>
    rw [get_miss hfound]
    have hgone : (p.store.cache.check p.now key).2.entries.lookup key = none := by
      rw [NodeCache.get_fst, Option.map_eq_none_iff] at hfound
      rw [NodeCache.lookup_check, if_pos rfl, hfound]
    refine h.next hmax hbound ?_ ?_ (h.faithful_check key) fun j hj => absurd hj List.not_mem_nil
    · refine h.tracked_of fun j e he => ⟨NodeCache.mem_of_lookup_check he, fun hj => ?_⟩
      refine KeyOrder.mem_delete.mpr ⟨fun hjk => ?_, hj⟩
      rw [hjk, hgone] at he
      cases he
    · refine h.order_unused (p.store.recency.delete_sublist key) fun j => ?_
      simp [Record.uses]
  | some v =>
    rw [get_hit hfound]
    refine h.next hmax hbound ?_ ?_ (h.faithful_check key) fun j hj => absurd hj List.not_mem_nil
    · exact h.tracked_of fun j e he => ⟨NodeCache.mem_of_lookup_check he, fun hj =>
        KeyOrder.mem_touch.mpr (.inr hj)⟩
    · refine h.order_used (List.Sublist.refl _) (by simp [Record.uses]) fun j hj => ?_
      simp [Record.uses, Ne.symm hj]

theorem Consistent.delete (h : Consistent maxKeys p) (key : JsString) :
    Consistent maxKeys (p.next (.delete key) none [] (p.store.delete key)) := by
  have hbound := (NodeCache.statsKeys_del_le key p.store.cache).trans h.bounded
  refine h.next h.maxKeys_eq hbound ?_ ?_ ?_ fun j hj => absurd hj List.not_mem_nil
  · intro j hj
    obtain ⟨hne, hheld⟩ := NodeCache.mem_del.mp hj
    exact KeyOrder.mem_delete.mpr ⟨hne, h.tracked j hheld⟩
  · exact h.order_unused (p.store.recency.delete_sublist key) fun j => rfl
  · intro j
    have hlookup : (p.store.delete key).cache.entries.lookup j = if j = key then none
        else p.store.cache.entries.lookup j := NodeCache.lookup_del
    have hstanding : standing j (p.next (.delete key) none [] (p.store.delete key)).history =
        if key = j then none else standing j p.history := rfl
    rw [hlookup, hstanding]
    by_cases hj : j = key
    · rw [if_pos hj, if_pos hj.symm]
      exact .inl rfl
    · rw [if_neg hj, if_neg (Ne.symm hj)]
      exact h.faithful j

theorem Consistent.checkData (h : Consistent maxKeys p) :
    Consistent maxKeys
      (p.next .checkData none [] { p.store with cache := p.store.cache.checkData p.now }) := by
  have hmax : (p.store.cache.checkData p.now).maxKeys = maxKeys :=
    NodeCache.checkData_maxKeys.trans h.maxKeys_eq
  have hbound := (NodeCache.statsKeys_checkData_le p.now p.store.cache).trans h.bounded
  refine h.next hmax hbound ?_ ?_ ?_ fun j hj => absurd hj List.not_mem_nil
  · refine h.tracked_of fun j e he => ⟨?_, id⟩
    rw [NodeCache.lookup_checkData] at he
    exact NodeCache.mem_of_lookup (Option.filter_eq_some_iff.mp he).1
  · exact h.order_unused (List.Sublist.refl _) fun j => rfl
  · intro j
    show Faithful p.now ((p.store.cache.checkData p.now).entries.lookup j) (standing j p.history)
    rw [NodeCache.lookup_checkData]
    exact (h.faithful j).filter

theorem Consistent.advance (h : Consistent maxKeys p) (ms : Nat) :
    Consistent maxKeys { p.next (.advance ms) none [] p.store with now := p.now + ms } := by
  have hnext : Consistent maxKeys (p.next (.advance ms) none [] p.store) :=
    h.next h.maxKeys_eq h.bounded h.tracked (h.order_unused (List.Sublist.refl _) fun j => rfl)
      h.faithful fun j hj => absurd hj List.not_mem_nil
  exact { hnext with faithful := fun j => (hnext.faithful j).later (Nat.le_add_right p.now ms) }

/-! ## What a `set` evicts -/

theorem filter_eq_singleton {κ : Type} [DecidableEq κ] {l : List κ} {p : κ → Bool} {a : κ}
    (hnodup : l.Nodup) (ha : a ∈ l) (hp : ∀ b ∈ l, p b = decide (b = a)) :
    l.filter p = [a] := by
  have hbeq : ∀ b ∈ l, p b = (b == a) := hp
  rw [List.filter_congr hbeq, List.filter_beq, List.count_eq_one_of_mem hnodup ha]
  rfl

theorem Consistent.sized (h : Consistent maxKeys p) (hpos : 0 < maxKeys) : p.store.Sized where
  pos := h.maxKeys_eq ▸ hpos
  bounded := h.maxKeys_eq ▸ h.bounded

/-- The keys that a `set` removed are those that were evicted to make room. -/
theorem lost_eq {key : JsString} {roomy : MemoryStore α} {evicted : List JsString}
    (h : RoomFor key p.store evicted roomy) (e : WrappedValue α) :
    p.lost key (roomy.hold key e) = evicted := by
  have hheld : ∀ j, j ≠ key → (j ∈ (roomy.hold key e).cache.entries ↔
      j ∉ evicted ∧ j ∈ p.store.cache.entries) := by
    intro j hj
    have hinsert : j ∈ (roomy.hold key e).cache.entries ↔ j ∈ roomy.cache.entries := by
      rw [show (roomy.hold key e).cache.entries = roomy.cache.entries.insert key e from rfl,
        AList.mem_insert]
      exact or_iff_right hj
    rw [hinsert, ← AList.lookup_isSome, h.lookup hj]
    split
    · rename_i hin
      simp [hin]
    · rename_i hin
      simp [hin, AList.lookup_isSome]
  have hkeys : ∀ j, j ∈ p.store.cache.keys ↔ j ∈ p.store.cache.entries := fun j =>
    List.mem_reverse.trans AList.mem_keys.symm
  cases h with
  | room hroom =>
    refine List.filter_eq_nil_iff.mpr fun j hj => ?_
    by_cases hjk : j = key <;> simp [hjk, hheld, (hkeys j).mp hj]
  | @evicted before after victim order hkey hfull horder hbefore hvictim hafter =>
    refine filter_eq_singleton (List.nodup_reverse.mpr p.store.cache.entries.keys_nodup)
      ((hkeys victim).mpr hvictim) fun j hj => ?_
    have hheld' := (hkeys j).mp hj
    have hjk : j ≠ key := fun he => hkey (he ▸ hheld')
    simp only [hheld j hjk, hheld', ne_eq, hjk, not_false_eq_true, true_and, and_true,
      List.mem_singleton, not_not]

theorem Consistent.evictsOldest {key : JsString} {roomy : MemoryStore α} {evicted : List JsString}
    (h : Consistent maxKeys p) (hroom : RoomFor key p.store evicted roomy) {value : α}
    {ttlSec : Option Rat} {found : Option α} :
    ∀ victim ∈ evicted, EvictsOldest maxKeys
      ⟨.set key value ttlSec, p.now, p.store.cache.keys, found, evicted⟩ p.history victim := by
  intro victim hin
  have hkeys : ∀ j, j ∈ p.store.cache.keys ↔ j ∈ p.store.cache.entries := fun j =>
    List.mem_reverse.trans AList.mem_keys.symm
  cases hroom with
  | room hroom => exact absurd hin List.not_mem_nil
  | @evicted before after victim' order hkey hfull horder hbefore hvictim hafter =>
    rw [List.mem_singleton.mp hin]
    refine ⟨⟨key, value, ttlSec, rfl, fun hk => hkey ((hkeys key).mp hk)⟩, ?_,
      (hkeys victim').mpr hvictim, fun j hj hne => ?_⟩
    · show p.store.cache.entries.keys.reverse.length = maxKeys
      rw [List.length_reverse]
      exact hfull.trans h.maxKeys_eq
    · -- another held key comes after the victim
      have hheld := (hkeys j).mp hj
      have hmem : j ∈ (p.store.recency.delete key).keys :=
        KeyOrder.mem_delete.mpr ⟨fun he => hkey (he ▸ hheld), h.tracked j hheld⟩
      have hpair := h.order.sublist (p.store.recency.delete_sublist key)
      rw [horder] at hmem hpair
      have hlater : j ∈ after := by
        rcases List.mem_append.mp hmem with hj | hj
        · exact absurd hheld (hbefore j hj)
        · exact (List.mem_cons.mp hj).resolve_left hne
      exact List.rel_of_pairwise_cons (List.pairwise_append.mp hpair).2.1 hlater

theorem Consistent.set (h : Consistent maxKeys p) (hpos : 0 < maxKeys) (key : JsString)
    (value : α) (ttlSec : Option Rat) : ∃ store, p.store.set p.now key value ttlSec = .ok store ∧
      Consistent maxKeys (p.next (.set key value ttlSec) none (p.lost key store) store) := by
  obtain ⟨evicted, roomy, hroom, hset⟩ :=
    set_spec p.now key h.tracked (h.sized hpos) value ttlSec
  refine ⟨_, hset, ?_⟩
  rw [lost_eq hroom]
  have hlt := hroom.statsKeys_lt
  have hmax := hroom.maxKeys.trans h.maxKeys_eq
  refine h.next hmax ?_ ?_ ?_ ?_ (h.evictsOldest hroom)
  · -- the key was not held, so there is one entry more
    show (roomy.cache.entries.insert key _).keys.length ≤ maxKeys
    have hnot : key ∉ roomy.cache.entries.keys := fun hk =>
      hroom.key_not_mem (AList.mem_keys.mpr hk)
    have herase := @List.erase_of_not_mem _ instBEqOfDecidableEq _ _ _ hnot
    rw [AList.keys_insert, herase, List.length_cons]
    exact hmax ▸ hlt
  · intro j hj
    rcases (AList.mem_insert _).mp hj with hj | hj
    · exact KeyOrder.mem_touch.mpr (.inl hj)
    · exact KeyOrder.mem_touch.mpr (.inr (hroom.tracked h.tracked j hj))
  · refine h.order_used hroom.sublist (by simp [Record.uses]) fun j hj => ?_
    simp [Record.uses, Ne.symm hj]
  · intro j
    show Faithful p.now ((roomy.cache.entries.insert key _).lookup j)
      (if key = j then _ else if j ∈ evicted then none else standing j p.history)
    by_cases hj : j = key
    · rw [hj, AList.lookup_insert, if_pos rfl]
      exact .inl rfl
    · rw [AList.lookup_insert_ne hj, hroom.lookup hj, if_neg (Ne.symm hj)]
      split
      · exact .inl rfl
      · exact h.faithful j

theorem Consistent.goes_on (h : Consistent maxKeys p) (hpos : 0 < maxKeys) (op : Op α) :
    ∃ p', step p op = some p' ∧ Consistent maxKeys p' := by
  cases op with
  | get key => exact ⟨_, rfl, h.get key⟩
  | set key value ttlSec =>
    obtain ⟨store, hset, hnext⟩ := h.set hpos key value ttlSec
    exact ⟨_, step_set hset, hnext⟩
  | delete key => exact ⟨_, rfl, h.delete key⟩
  | advance ms => exact ⟨_, rfl, h.advance ms⟩
  | checkData => exact ⟨_, rfl, h.checkData⟩

theorem Consistent.run_goes_on (h : Consistent maxKeys p) (hpos : 0 < maxKeys) (ops : List (Op α)) :
    ∃ p', run step p ops = some p' ∧ Consistent maxKeys p' := by
  induction ops generalizing p with
  | nil => exact ⟨p, rfl, h⟩
  | cons op ops ih =>
    obtain ⟨p1, hp1, hnext⟩ := h.goes_on hpos op
    obtain ⟨p', hrun, hlast⟩ := ih hnext
    refine ⟨p', ?_, hlast⟩
    rw [run_next hp1, hrun]

theorem Consistent.boundedLru (h : Consistent maxKeys p) (hpos : 0 < maxKeys) :
    BoundedLru maxKeys p where
  bounded := h.bounded
  set_ok := fun key value ttlSec =>
    (h.set hpos key value ttlSec).imp fun _ hset => hset.1
  makes_room := fun key => by
    obtain ⟨evicted, hroom⟩ := makeRoom_spec p.now key h.tracked (h.sized hpos)
    refine ⟨_, evicting _, ?_⟩
    have hlt := hroom.statsKeys_lt
    rwa [hroom.maxKeys, h.maxKeys_eq] at hlt
  get_iff := fun key v => by
    rw [get_fst_eq, NodeCache.get_fst]
    exact (h.faithful key).value_eq_some
  evicts := h.evicts

end

/-- Whatever the calls, the clock and the periodic check do, no call throws and
the store is a bounded LRU map with expiry. -/
theorem bounded_lru {maxKeys : Nat} (hpos : 0 < maxKeys) (now : Nat) (ops : List (Op α)) :
    ∃ p, run step (start α maxKeys now) ops = some p ∧ BoundedLru maxKeys p := by
  obtain ⟨p, hrun, h⟩ := (start_consistent maxKeys now).run_goes_on hpos ops
  exact ⟨p, hrun, h.boundedLru hpos⟩

theorem bounded_lru_two_keys :
    ∃ p, run step (start Nat 1 0) [.set (js "a") 1 none, .get (js "a"), .set (js "b") 2 (some 1),
      .advance 5000, .checkData] = some p ∧ BoundedLru 1 p :=
  bounded_lru (by decide) 0 _

end NewsApi.Cache.StoreHistory
