import Mathlib.Algebra.Order.Ring.Unbundled.Rat
import Mathlib.Data.List.AList
import NewsApi.Text.JsString

/-! # The cache library

What the in-process store uses of its cache library: `stats.keys` counts the
entries that are held, an expired entry is dropped when it is looked at or by
the periodic check, and a full cache accepts no entry. A value is anything but
`undefined`, which stands for a miss. -/
namespace NewsApi.Cache
open NewsApi.Text

structure WrappedValue (α : Type) where
  value : α
  /-- in ms; `none`: never -/
  expiresAt : Option Rat

/-- A TTL of zero seconds is no limit. -/
def expiryOf (now : Nat) (ttlSec : Rat) : Option Rat :=
  if ttlSec = 0 then none else some (now + ttlSec * 1000)

def WrappedValue.expired {α : Type} (now : Nat) (e : WrappedValue α) : Bool :=
  match e.expiresAt with
  | some t => t < now
  | none => false

/-- The error of a full cache. -/
inductive CacheFull where
  | ECACHEFULL

structure NodeCache (α : Type) where
  maxKeys : Nat
  entries : AList fun _ : JsString => WrappedValue α

namespace NodeCache
variable {α : Type} (now : Nat) (key : JsString) (c : NodeCache α)

/-- `getStats().keys` -/
def statsKeys : Nat := c.entries.keys.length

/-- `keys()`, in insertion order -/
def keys : List JsString := c.entries.keys.reverse

def del : NodeCache α := { c with entries := c.entries.erase key }

/-- Whether the key is held and not expired; an expired entry is deleted. -/
def check : Bool × NodeCache α :=
  match c.entries.lookup key with
  | some e => if e.expired now then (false, c.del key) else (true, c)
  | none => (false, c)

def has : Bool × NodeCache α := c.check now key

def get : Option α × NodeCache α :=
  let (valid, c) := c.check now key
  (if valid then (c.entries.lookup key).map WrappedValue.value else none, c)

def set (value : α) (ttlSec : Rat) : Except CacheFull (NodeCache α) :=
  if c.maxKeys ≤ c.statsKeys then .error .ECACHEFULL
  else .ok { c with entries := c.entries.insert key ⟨value, expiryOf now ttlSec⟩ }

/-- The periodic check of every entry. -/
def checkData : NodeCache α := c.keys.foldl (fun c key => (c.check now key).2) c

/-! ## What the operations do -/

section
variable {now key c} {j : JsString}

@[simp] theorem del_maxKeys : (c.del key).maxKeys = c.maxKeys := rfl

theorem lookup_del : (c.del key).entries.lookup j = if j = key then none
    else c.entries.lookup j := by
  split
  · rename_i hj
    rw [hj]
    exact AList.lookup_erase key c.entries
  · rename_i hj
    exact AList.lookup_erase_ne hj

theorem mem_del : j ∈ (c.del key).entries ↔ j ≠ key ∧ j ∈ c.entries := AList.mem_erase

theorem del_of_not_mem (h : key ∉ c.entries) : c.del key = c := by
  have herase : c.entries.erase key = c.entries :=
    AList.ext (List.kerase_of_notMem_keys h)
  rw [del, herase]

theorem statsKeys_del (h : key ∈ c.entries) : (c.del key).statsKeys + 1 = c.statsKeys := by
  have hmem : key ∈ c.entries.keys := AList.mem_keys.mp h
  have hpos := List.length_pos_of_mem hmem
  have hlen := @List.length_erase_of_mem _ instBEqOfDecidableEq _ _ _ hmem
  rw [statsKeys, del, AList.keys_erase, hlen, statsKeys]
  omega

/-- A look at a key drops it if it has expired, and nothing else. -/
theorem check_snd (now : Nat) (key : JsString) (c : NodeCache α) : (c.check now key).2 = c ∨
    ∃ e, c.entries.lookup key = some e ∧ e.expired now = true ∧
      (c.check now key).2 = c.del key := by
  unfold check
  split
  · rename_i e he
    split
    · rename_i hexp
      exact .inr ⟨e, he, hexp, rfl⟩
    · exact .inl rfl
  · exact .inl rfl

theorem statsKeys_del_le (key : JsString) (c : NodeCache α) :
    (c.del key).statsKeys ≤ c.statsKeys := by
  by_cases h : key ∈ c.entries
  · have := statsKeys_del h
    omega
  · rw [del_of_not_mem h]

theorem statsKeys_check_le (now : Nat) (key : JsString) (c : NodeCache α) :
    (c.check now key).2.statsKeys ≤ c.statsKeys := by
  rcases check_snd now key c with hsame | ⟨e, he, hexp, hdel⟩
  · rw [hsame]
  · rw [hdel]
    exact statsKeys_del_le key c

@[simp] theorem check_maxKeys : (c.check now key).2.maxKeys = c.maxKeys := by
  rcases check_snd now key c with hsame | ⟨e, he, hexp, hdel⟩
  · rw [hsame]
  · rw [hdel, del_maxKeys]

theorem lookup_check : (c.check now key).2.entries.lookup j =
    if j = key then (c.entries.lookup key).filter (fun e => !e.expired now)
    else c.entries.lookup j := by
  unfold check
  split
  · rename_i e he
    split
    · rename_i hexp
      rw [lookup_del, he, Option.filter_some, hexp]
      rfl
    · rename_i hexp
      split
      · rename_i hj
        rw [hj, he, Option.filter_some, if_pos (by simpa using hexp)]
      · rfl
  · rename_i hnone
    split
    · rename_i hj
      rw [hj, hnone]
      rfl
    · rfl

theorem check_fst : (c.check now key).1 = ((c.check now key).2.entries.lookup key).isSome := by
  rw [lookup_check, if_pos rfl]
  unfold check
  split
  · rename_i e he
    rw [he, Option.filter_some]
    cases e.expired now <;> rfl
  · rename_i hnone
    rw [hnone]
    rfl

theorem get_fst : (c.get now key).1 =
    ((c.entries.lookup key).filter fun e => !e.expired now).map WrappedValue.value := by
  have hvalid : (c.check now key).1 = ((c.check now key).2.entries.lookup key).isSome := check_fst
  have hlook : (c.check now key).2.entries.lookup key = if key = key then
      (c.entries.lookup key).filter (fun e => !e.expired now) else c.entries.lookup key :=
    lookup_check
  rw [if_pos rfl] at hlook
  have hget : (c.get now key).1 = if (c.check now key).1 then
      ((c.check now key).2.entries.lookup key).map WrappedValue.value else none := rfl
  rw [hget, hvalid, ← hlook]
  cases (c.check now key).2.entries.lookup key <;> rfl

theorem lookup_checkData_aux (ks : List JsString) (c : NodeCache α) :
    (ks.foldl (fun c key => (c.check now key).2) c).entries.lookup j =
      if j ∈ ks then (c.entries.lookup j).filter (fun e => !e.expired now)
      else c.entries.lookup j := by
  induction ks generalizing c with
  | nil => rfl
  | cons k ks ih =>
    rw [List.foldl_cons, ih, lookup_check]
    by_cases hj : j = k
    · subst hj
      cases c.entries.lookup j with
      | none => simp
      | some e => cases hexp : e.expired now <;> simp [Option.filter_some, hexp]
    · simp [hj]

/-- The periodic check drops what has expired. -/
theorem lookup_checkData : (c.checkData now).entries.lookup j =
    (c.entries.lookup j).filter fun e => !e.expired now := by
  rw [checkData, lookup_checkData_aux]
  split
  · rfl
  · rename_i hj
    have hnone : c.entries.lookup j = none := by
      rw [AList.lookup_eq_none, AList.mem_keys]
      simpa [keys] using hj
    rw [hnone]
    rfl

theorem statsKeys_checkData_le (now : Nat) (c : NodeCache α) :
    (c.checkData now).statsKeys ≤ c.statsKeys := by
  unfold checkData
  generalize c.keys = ks
  induction ks generalizing c with
  | nil => exact Nat.le_refl _
  | cons k ks ih => exact (ih _).trans (statsKeys_check_le now k c)

@[simp] theorem checkData_maxKeys : (c.checkData now).maxKeys = c.maxKeys := by
  unfold checkData
  generalize c.keys = ks
  induction ks generalizing c with
  | nil => rfl
  | cons k ks ih => rw [List.foldl_cons, ih, check_maxKeys]

theorem mem_of_lookup {e : WrappedValue α} (h : c.entries.lookup j = some e) : j ∈ c.entries :=
  AList.lookup_isSome.mp (Option.isSome_iff_exists.mpr ⟨e, h⟩)

theorem mem_of_lookup_check {e : WrappedValue α}
    (h : (c.check now key).2.entries.lookup j = some e) : j ∈ c.entries := by
  rw [lookup_check] at h
  split at h
  · rename_i hj
    exact hj ▸ mem_of_lookup (Option.filter_eq_some_iff.mp h).1
  · exact mem_of_lookup h

end

end NodeCache

end NewsApi.Cache
