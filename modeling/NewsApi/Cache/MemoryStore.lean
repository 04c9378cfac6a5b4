import NewsApi.Async.Prog
import NewsApi.Cache.NodeCache
import NewsApi.Collections.KeyOrder
import NewsApi.Errors

/-! # The cache store

The interface, and the in-process store behind it. Every method is asynchronous
and may reject. The lease commands are optional: the Redis store has them, the
in-process store does not. -/
namespace NewsApi.Cache
open NewsApi.Async NewsApi.Text NewsApi.Types NewsApi.Errors NewsApi.Collections

/-- The TTL of an entry written without one, in seconds. -/
def TTL_SEC : Nat := 600

section
variable (C : Type) (R : C → Type)

structure CacheLeaseStore where
  tryAcquireLease (key owner : JsString) (ttlMs : Nat) : AsyncM JsError C R Bool
  releaseLease (key owner : JsString) : AsyncM JsError C R Unit

structure CacheStore where
  get (key : JsString) : AsyncM JsError C R (Option Json)
  set (key : JsString) (value : Json) (ttlSec : Nat) : AsyncM JsError C R Unit
  delete (key : JsString) : AsyncM JsError C R Unit

end

/-! ## In the process

A cache of at most `maxKeys` entries and, beside it, the keys in the order of
their last use. The methods are `async` but run without an await. -/

structure MemoryStore (α : Type) where
  cache : NodeCache α
  recency : KeyOrder JsString
  /-- `news_cache_evictions_total` -/
  evictionsTotal : Nat

def createMemoryStore (α : Type) (maxKeys : Nat) : MemoryStore α where
  cache := { maxKeys := maxKeys, entries := ∅ }
  recency := .empty
  evictionsTotal := 0

namespace MemoryStore
variable {α : Type}

def touch (key : JsString) (s : MemoryStore α) : MemoryStore α :=
  { s with recency := s.recency.touch key }

def forget (key : JsString) (s : MemoryStore α) : MemoryStore α :=
  { s with recency := s.recency.delete key }

/-- `none`: there was nothing to evict. The empty key is no fallback. -/
def evictLeastRecentlyUsed (s : MemoryStore α) : Option (MemoryStore α) :=
  match s.recency.oldest with
  | some oldest => some
    { cache := s.cache.del oldest
      recency := s.recency.delete oldest
      evictionsTotal := s.evictionsTotal + 1 }
  | none =>
    match s.cache.keys.head? with
    | none | some [] => none
    | some fallback => some
      { s with cache := s.cache.del fallback, evictionsTotal := s.evictionsTotal + 1 }

/-- What the loop of `makeRoom` works off. -/
def size (s : MemoryStore α) : Nat := s.recency.keys.length + s.cache.statsKeys

theorem size_evict {s s' : MemoryStore α} (h : s.evictLeastRecentlyUsed = some s') :
    s'.size < s.size := by
  unfold evictLeastRecentlyUsed at h
  split at h
  · rename_i oldest holdest
    cases h
    have hmem : oldest ∈ s.recency.keys := List.mem_of_head? holdest
    have hpos := List.length_pos_of_mem hmem
    have hlen := @List.length_erase_of_mem _ instBEqOfDecidableEq _ _ _ hmem
    have hcache := s.cache.statsKeys_del_le oldest
    simp only [size, KeyOrder.delete_keys, hlen]
    omega
  · split at h
    · cases h
    · cases h
    · rename_i fallback hne hfallback
      cases h
      have hmem : fallback ∈ s.cache.entries :=
        AList.mem_keys.mpr (List.mem_reverse.mp (List.mem_of_head? hfallback))
      have := NodeCache.statsKeys_del hmem
      simp only [size]
      omega

/-- `while (c.getStats().keys >= maxKeys && evictLeastRecentlyUsed())` -/
def evictUntilRoom (s : MemoryStore α) : MemoryStore α :=
  if s.cache.maxKeys ≤ s.cache.statsKeys then
    match _h : s.evictLeastRecentlyUsed with
    | some s' => evictUntilRoom s'
    | none => s
  else s
termination_by s.size
decreasing_by exact size_evict _h

/-- The first half of `makeRoom`: the entry of the key itself goes. -/
def dropOwn (now : Nat) (key : JsString) (s : MemoryStore α) : MemoryStore α :=
  let (has, cache) := s.cache.has now key
  { s with cache := if has then cache.del key else cache, recency := s.recency.delete key }

def makeRoom (now : Nat) (key : JsString) (s : MemoryStore α) : MemoryStore α :=
  (s.dropOwn now key).evictUntilRoom

def get (now : Nat) (key : JsString) (s : MemoryStore α) : Option α × MemoryStore α :=
  let (value, cache) := s.cache.get now key
  let s := { s with cache := cache }
  match value with
  | none => (none, s.forget key)
  | some value => (some value, s.touch key)

def set (now : Nat) (key : JsString) (value : α) (ttlSec : Option Rat) (s : MemoryStore α) :
    Except CacheFull (MemoryStore α) := do
  let s := s.makeRoom now key
  let cache ← s.cache.set now key value (ttlSec.getD TTL_SEC)
  return { s with cache := cache }.touch key

def delete (key : JsString) (s : MemoryStore α) : MemoryStore α :=
  { s with cache := s.cache.del key, recency := s.recency.delete key }

end MemoryStore

end NewsApi.Cache
