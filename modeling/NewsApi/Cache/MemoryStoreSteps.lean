import NewsApi.Cache.MemoryStore

/-! # What the methods of the in-process store do -/
namespace NewsApi.Cache.MemoryStore
open NewsApi.Text NewsApi.Collections

variable {α : Type} {now : Nat} {key : JsString} {s : MemoryStore α}

/-- Every held key has a place in the order. -/
def Tracked (s : MemoryStore α) : Prop := ∀ j ∈ s.cache.entries, j ∈ s.recency

structure Sized (s : MemoryStore α) : Prop where
  pos : 0 < s.cache.maxKeys
  bounded : s.cache.statsKeys ≤ s.cache.maxKeys

/-- Whether it is still valid or not, the entry of the key itself goes. -/
theorem dropOwn_eq (s : MemoryStore α) : s.dropOwn now key = s.delete key := by
  have hcache : (if (s.cache.check now key).1 then (s.cache.check now key).2.del key
      else (s.cache.check now key).2) = s.cache.del key := by
    unfold NodeCache.check
    split
    · split <;> rfl
    · rename_i hnone
      exact (NodeCache.del_of_not_mem (AList.lookup_eq_none.mp hnone)).symm
  have hdrop : s.dropOwn now key = { s with
      cache := if (s.cache.check now key).1 then (s.cache.check now key).2.del key
        else (s.cache.check now key).2
      recency := s.recency.delete key } := rfl
  rw [hdrop, hcache, delete]

theorem get_miss (h : (s.cache.get now key).1 = none) : s.get now key =
    (none, { s with cache := (s.cache.check now key).2, recency := s.recency.delete key }) := by
  have hget : s.cache.get now key = (none, (s.cache.check now key).2) := Prod.ext h rfl
  simp only [get, hget]
  rfl

theorem get_hit {v : α} (h : (s.cache.get now key).1 = some v) : s.get now key =
    (some v, { s with cache := (s.cache.check now key).2, recency := s.recency.touch key }) := by
  have hget : s.cache.get now key = (some v, (s.cache.check now key).2) := Prod.ext h rfl
  simp only [get, hget]
  rfl

theorem get_fst_eq :
    (s.get now key).1 = (s.cache.get now key).1 := by
  cases h : (s.cache.get now key).1 with
  | none => rw [get_miss h]
  | some v => rw [get_hit h]

theorem evict_oldest {oldest : JsString} {after : List JsString}
    (h : s.recency.keys = oldest :: after) : s.evictLeastRecentlyUsed = some
      { cache := s.cache.del oldest, recency := s.recency.delete oldest,
        evictionsTotal := s.evictionsTotal + 1 } := by
  have holdest : s.recency.oldest = some oldest := by
    rw [KeyOrder.oldest, h]
    rfl
  rw [evictLeastRecentlyUsed, holdest]

theorem evictUntilRoom_room (h : s.cache.statsKeys < s.cache.maxKeys) : s.evictUntilRoom = s := by
  rw [evictUntilRoom, if_neg (Nat.not_le.mpr h)]

theorem evictUntilRoom_next {s' : MemoryStore α} (h : s.cache.maxKeys ≤ s.cache.statsKeys)
    (he : s.evictLeastRecentlyUsed = some s') : s.evictUntilRoom = s'.evictUntilRoom := by
  rw [evictUntilRoom, if_pos h]
  split
  · rename_i s'' hs
    rw [he] at hs
    cases hs
    rfl
  · rename_i hs
    rw [he] at hs
    cases hs

/-- The loop of `makeRoom`, evaluated until it ends. -/
inductive Evicting : MemoryStore α → MemoryStore α → Prop where
  | done {s : MemoryStore α}
      (h : s.cache.maxKeys ≤ s.cache.statsKeys → s.evictLeastRecentlyUsed = none) : Evicting s s
  | next {s s' t : MemoryStore α} (h : s.cache.maxKeys ≤ s.cache.statsKeys)
      (he : s.evictLeastRecentlyUsed = some s') (hrest : Evicting s' t) : Evicting s t

theorem evicting (s : MemoryStore α) : Evicting s s.evictUntilRoom := by
  induction s using evictUntilRoom.induct with
  | case1 s hfull s' he ih =>
    rw [evictUntilRoom_next hfull he]
    exact .next hfull he ih
  | case2 s hfull he =>
    have hsame : s.evictUntilRoom = s := by
      rw [evictUntilRoom, if_pos hfull]
      split
      · rename_i s' hs
        rw [he] at hs
        cases hs
      · rfl
    rw [hsame]
    exact .done fun _ => he
  | case3 s hroom =>
    rw [evictUntilRoom_room (Nat.not_le.mp hroom)]
    exact .done fun hfull => absurd hfull hroom

/-- In a full store keys that are not held are passed over, and the first key
that is held is evicted. -/
theorem evictUntilRoom_full {before after : List JsString} {victim : JsString}
    (hsized : s.Sized) (hfull : s.cache.maxKeys ≤ s.cache.statsKeys)
    (horder : s.recency.keys = before ++ victim :: after)
    (hbefore : ∀ j ∈ before, j ∉ s.cache.entries) (hvictim : victim ∈ s.cache.entries) :
    ∃ order : KeyOrder JsString, order.keys = after ∧ s.evictUntilRoom =
      { cache := s.cache.del victim, recency := order,
        evictionsTotal := s.evictionsTotal + before.length + 1 } := by
  induction before generalizing s with
  | nil =>
    have hroom := NodeCache.statsKeys_del hvictim
    have hbound := hsized.bounded
    refine ⟨s.recency.delete victim, KeyOrder.delete_head horder, ?_⟩
    · rw [evictUntilRoom_next hfull (evict_oldest horder)]
      refine evictUntilRoom_room ?_
      show (s.cache.del victim).statsKeys < s.cache.maxKeys
      omega
  | cons k before ih =>
    have hsame : s.cache.del k = s.cache :=
      NodeCache.del_of_not_mem (hbefore k List.mem_cons_self)
    have hevict := evict_oldest horder
    rw [hsame] at hevict
    obtain ⟨order, hkeys, heq⟩ := @ih
      ⟨s.cache, s.recency.delete k, s.evictionsTotal + 1⟩ ⟨hsized.pos, hsized.bounded⟩ hfull
      (KeyOrder.delete_head horder) (fun j hj => hbefore j (List.mem_cons_of_mem k hj)) hvictim
    refine ⟨order, hkeys, ?_⟩
    rw [evictUntilRoom_next hfull hevict, heq, List.length_cons]
    have htotal : s.evictionsTotal + 1 + before.length + 1 =
        s.evictionsTotal + (before.length + 1) + 1 := by omega
    exact congrArg (MemoryStore.mk (s.cache.del victim) order) htotal

/-- What `makeRoom` leaves, and what it evicts. -/
inductive RoomFor (key : JsString) (s : MemoryStore α) : List JsString → MemoryStore α → Prop
  /-- the key itself made room, or there was room -/
  | room (h : (s.delete key).cache.statsKeys < s.cache.maxKeys) : RoomFor key s [] (s.delete key)
  /-- all others are held and `victim` is the first of them in the order -/
  | evicted {before after : List JsString} {victim : JsString} {order : KeyOrder JsString}
      (hkey : key ∉ s.cache.entries) (hfull : s.cache.statsKeys = s.cache.maxKeys)
      (horder : (s.recency.delete key).keys = before ++ victim :: after)
      (hbefore : ∀ j ∈ before, j ∉ s.cache.entries) (hvictim : victim ∈ s.cache.entries)
      (hafter : order.keys = after) :
      RoomFor key s [victim]
        { cache := s.cache.del victim, recency := order,
          evictionsTotal := s.evictionsTotal + before.length + 1 }

theorem makeRoom_spec (now : Nat) (key : JsString) (htracked : s.Tracked) (hsized : s.Sized) :
    ∃ evicted, RoomFor key s evicted (s.makeRoom now key) := by
  obtain ⟨hpos, hbound⟩ := hsized
  rw [makeRoom, dropOwn_eq]
  by_cases hroom : (s.delete key).cache.statsKeys < s.cache.maxKeys
  · refine ⟨[], ?_⟩
    rw [evictUntilRoom_room hroom]
    exact .room hroom
  · have hdel : (s.delete key).cache = s.cache.del key := rfl
    have hkey : key ∉ s.cache.entries := by
      intro hkey
      have := NodeCache.statsKeys_del hkey
      rw [hdel] at hroom
      omega
    have hsame : (s.delete key).cache = s.cache := NodeCache.del_of_not_mem hkey
    rw [hsame] at hroom
    -- the store holds something, and all that it holds is in the order
    obtain ⟨k, hk⟩ : ∃ k, k ∈ s.cache.entries := by
      have : s.cache.entries.keys ≠ [] := by
        intro hnil
        rw [NodeCache.statsKeys, hnil, List.length_nil] at hroom
        exact hroom hpos
      obtain ⟨k, hk⟩ := List.exists_mem_of_ne_nil _ this
      exact ⟨k, AList.mem_keys.mpr hk⟩
    have hin : ∀ j ∈ s.cache.entries, j ∈ s.recency.delete key := fun j hj =>
      KeyOrder.mem_delete.mpr ⟨fun he => hkey (he ▸ hj), htracked j hj⟩
    obtain ⟨before, victim, after, horder, hbefore, hvictim⟩ :=
      (s.recency.delete key).oldest_where (· ∈ s.cache.entries) ⟨k, hin k hk, hk⟩
    have hsized' : (s.delete key).Sized := ⟨hsame.symm ▸ hpos, hsame.symm ▸ hbound⟩
    obtain ⟨order, hafter, heq⟩ := evictUntilRoom_full hsized'
      (hsame.symm ▸ Nat.not_lt.mp hroom) horder (hsame.symm ▸ hbefore) (hsame.symm ▸ hvictim)
    refine ⟨[victim], ?_⟩
    rw [heq, hsame]
    exact .evicted hkey (by omega) horder hbefore hvictim hafter

section
variable {roomy : MemoryStore α} {evicted : List JsString}

theorem RoomFor.maxKeys (h : RoomFor key s evicted roomy) :
    roomy.cache.maxKeys = s.cache.maxKeys := by
  cases h <;> rfl

/-- There is room, and the key itself is not held. -/
theorem RoomFor.statsKeys_lt (h : RoomFor key s evicted roomy) :
    roomy.cache.statsKeys < roomy.cache.maxKeys := by
  cases h with
  | room hroom => exact hroom
  | evicted hkey hfull horder hbefore hvictim hafter =>
    have := NodeCache.statsKeys_del hvictim
    show (s.cache.del _).statsKeys < s.cache.maxKeys
    omega

theorem RoomFor.key_not_mem (h : RoomFor key s evicted roomy) : key ∉ roomy.cache.entries := by
  cases h with
  | room hroom => exact fun hk => (NodeCache.mem_del.mp hk).1 rfl
  | evicted hkey hfull horder hbefore hvictim hafter =>
    exact fun hk => hkey (NodeCache.mem_del.mp hk).2

/-- Of the other entries only the evicted ones are gone. -/
theorem RoomFor.lookup (h : RoomFor key s evicted roomy) {j : JsString} (hj : j ≠ key) :
    roomy.cache.entries.lookup j = if j ∈ evicted then none else s.cache.entries.lookup j := by
  cases h with
  | room hroom =>
    rw [if_neg List.not_mem_nil]
    exact NodeCache.lookup_del.trans (if_neg hj)
  | evicted hkey hfull horder hbefore hvictim hafter =>
    simp only [List.mem_singleton]
    exact NodeCache.lookup_del

/-- What is left of the order is still in order. -/
theorem RoomFor.sublist (h : RoomFor key s evicted roomy) :
    roomy.recency.keys.Sublist s.recency.keys := by
  cases h with
  | room hroom => exact s.recency.delete_sublist key
  | @evicted before after victim order hkey hfull horder hbefore hvictim hafter =>
    have hafter' : after.Sublist (s.recency.delete key).keys := by
      rw [horder]
      exact (List.sublist_cons_self victim after).trans (List.sublist_append_right before _)
    exact hafter ▸ hafter'.trans (s.recency.delete_sublist key)

theorem RoomFor.tracked (h : RoomFor key s evicted roomy) (htracked : s.Tracked) :
    roomy.Tracked := by
  intro j hj
  cases h with
  | room hroom =>
    obtain ⟨hne, hheld⟩ := NodeCache.mem_del.mp hj
    exact KeyOrder.mem_delete.mpr ⟨hne, htracked j hheld⟩
  | @evicted before after victim order hkey hfull horder hbefore hvictim hafter =>
    obtain ⟨hne, hheld⟩ := NodeCache.mem_del.mp hj
    have hin : j ∈ (s.recency.delete key).keys :=
      KeyOrder.mem_delete.mpr ⟨fun he => hkey (he ▸ hheld), htracked j hheld⟩
    rw [horder, List.mem_append, List.mem_cons] at hin
    rcases hin with hin | hin | hin
    · exact absurd hheld (hbefore j hin)
    · exact absurd hin hne
    · show j ∈ order.keys
      rw [hafter]
      exact hin

/-- The entry is held and its key is the youngest. -/
def hold (key : JsString) (e : WrappedValue α) (s : MemoryStore α) : MemoryStore α :=
  { s with cache := { s.cache with entries := s.cache.entries.insert key e } }.touch key

theorem set_of_makeRoom {roomy : MemoryStore α} {value : α} {ttlSec : Option Rat}
    (h : s.makeRoom now key = roomy)
    (hroom : roomy.cache.statsKeys < roomy.cache.maxKeys) : s.set now key value ttlSec =
      .ok (roomy.hold key ⟨value, expiryOf now (ttlSec.getD TTL_SEC)⟩) := by
  have hset : roomy.cache.set now key value (ttlSec.getD TTL_SEC) = .ok _ :=
    if_neg (Nat.not_le.mpr hroom)
  have hbind : s.set now key value ttlSec =
      ((s.makeRoom now key).cache.set now key value (ttlSec.getD TTL_SEC)).bind fun cache =>
        .ok ({ s.makeRoom now key with cache := cache }.touch key) := rfl
  rw [hbind, h, hset]
  rfl

/-- A `set` never throws. -/
theorem set_spec (now : Nat) (key : JsString) (htracked : s.Tracked) (hsized : s.Sized)
    (value : α) (ttlSec : Option Rat) :
    ∃ evicted roomy, RoomFor key s evicted roomy ∧ s.set now key value ttlSec =
      .ok (roomy.hold key ⟨value, expiryOf now (ttlSec.getD TTL_SEC)⟩) := by
  obtain ⟨evicted, hroom⟩ := makeRoom_spec now key htracked hsized
  exact ⟨evicted, s.makeRoom now key, hroom, set_of_makeRoom rfl hroom.statsKeys_lt⟩

end

end NewsApi.Cache.MemoryStore
