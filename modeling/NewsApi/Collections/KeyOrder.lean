import Mathlib.Data.List.Nodup
import Mathlib.Data.List.TakeWhile

/-! # Keys in insertion order

The key list of an insertion-ordered map: setting a key that is there leaves it
in its place, so a key is moved to the end by deleting it first. -/
namespace NewsApi.Collections

structure KeyOrder (κ : Type) where
  keys : List κ
  nodup : keys.Nodup

variable {κ : Type} [DecidableEq κ]

namespace KeyOrder

instance : Membership κ (KeyOrder κ) := ⟨fun o k => k ∈ o.keys⟩

instance (o : KeyOrder κ) (k : κ) : Decidable (k ∈ o) := inferInstanceAs (Decidable (k ∈ o.keys))

omit [DecidableEq κ] in
theorem mem_keys {o : KeyOrder κ} {k : κ} : k ∈ o ↔ k ∈ o.keys := Iff.rfl

omit [DecidableEq κ] in
theorem ext {o o' : KeyOrder κ} (h : o.keys = o'.keys) : o = o' := by
  cases o
  cases o'
  cases h
  rfl

def empty : KeyOrder κ := ⟨[], List.nodup_nil⟩

def delete (o : KeyOrder κ) (k : κ) : KeyOrder κ := ⟨o.keys.erase k, o.nodup.erase k⟩

def set (o : KeyOrder κ) (k : κ) : KeyOrder κ where
  keys := if k ∈ o.keys then o.keys else o.keys ++ [k]
  nodup := by
    split
    · exact o.nodup
    · rename_i hk
      exact List.nodup_append.mpr ⟨o.nodup, List.nodup_singleton k, fun a ha b hb => by
        rw [List.mem_singleton.mp hb]
        exact fun hab => hk (hab ▸ ha)⟩

def oldest (o : KeyOrder κ) : Option κ := o.keys.head?

/-- Move a key to the end. -/
def touch (o : KeyOrder κ) (k : κ) : KeyOrder κ := (o.delete k).set k

theorem delete_keys (o : KeyOrder κ) (k : κ) : (o.delete k).keys = o.keys.erase k := rfl

theorem delete_sublist (o : KeyOrder κ) (k : κ) : (o.delete k).keys.Sublist o.keys :=
  List.erase_sublist

theorem delete_head {o : KeyOrder κ} {k : κ} {rest : List κ} (h : o.keys = k :: rest) :
    (o.delete k).keys = rest := by
  rw [delete_keys, h, List.erase_cons_head]

theorem touch_keys (o : KeyOrder κ) (k : κ) : (o.touch k).keys = o.keys.erase k ++ [k] :=
  if_neg o.nodup.not_mem_erase

@[simp] theorem mem_delete {o : KeyOrder κ} {k j : κ} : j ∈ o.delete k ↔ j ≠ k ∧ j ∈ o :=
  o.nodup.mem_erase_iff

@[simp] theorem mem_touch {o : KeyOrder κ} {k j : κ} : j ∈ o.touch k ↔ j = k ∨ j ∈ o := by
  rw [mem_keys, touch_keys, List.mem_append, List.mem_singleton, o.nodup.mem_erase_iff]
  by_cases hj : j = k <;> simp [hj, mem_keys]

/-- Sorted by age, an order stays so when a key is renewed and moved to the end. -/
theorem touch_pairwise {o : KeyOrder κ} {k : κ} {age age' : κ → Nat}
    (h : o.keys.Pairwise fun a b => age a < age b) (hage : ∀ j, j ≠ k → age' j = age j)
    (hk : ∀ j, age j < age' k) : (o.touch k).keys.Pairwise fun a b => age' a < age' b := by
  rw [touch_keys, List.pairwise_append]
  have hne : ∀ a ∈ o.keys.erase k, a ≠ k := fun a ha => (o.nodup.mem_erase_iff.mp ha).1
  refine ⟨?_, List.pairwise_singleton _ _, fun a ha b hb => ?_⟩
  · refine (h.sublist (o.delete_sublist k)).imp_of_mem fun ha hb hab => ?_
    rwa [hage _ (hne _ ha), hage _ (hne _ hb)]
  · rw [List.mem_singleton.mp hb, hage a (hne a ha)]
    exact hk a

omit [DecidableEq κ] in
/-- The oldest key of those that satisfy `p`, and the keys before it. -/
theorem oldest_where {o : KeyOrder κ} (p : κ → Prop) [DecidablePred p] (h : ∃ k ∈ o, p k) :
    ∃ before k after, o.keys = before ++ k :: after ∧ (∀ j ∈ before, ¬p j) ∧ p k := by
  obtain ⟨k, hk, hp⟩ := h
  have hne : o.keys.dropWhile (fun j => !decide (p j)) ≠ [] := by
    intro hnil
    have := List.dropWhile_eq_nil_iff.mp hnil k hk
    simp [hp] at this
  obtain ⟨j, after, hdrop⟩ := List.exists_cons_of_ne_nil hne
  refine ⟨o.keys.takeWhile fun j => !decide (p j), j, after, ?_, fun i hi => ?_, ?_⟩
  · rw [← hdrop, List.takeWhile_append_dropWhile]
  · simpa using List.mem_takeWhile_imp hi
  · have := List.head?_dropWhile_not (fun j => !decide (p j)) o.keys
    rw [hdrop] at this
    simpa using this

end KeyOrder

end NewsApi.Collections
