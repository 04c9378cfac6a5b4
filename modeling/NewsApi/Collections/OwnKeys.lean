import Mathlib.Data.List.Nodup
import Mathlib.Data.List.Sort

/-! # Own properties in order

The properties of an object: the index keys by their number, then the others in
the order in which they were added. A property that is set again stays in its
place. -/
namespace NewsApi.Collections

variable {κ α : Type} [DecidableEq κ]

/-- Add a property or change its value. -/
def assign (properties : List (κ × α)) (p : κ × α) : List (κ × α) :=
  if p.1 ∈ properties.map Prod.fst then
    properties.map fun q => if q.1 = p.1 then p else q
  else properties ++ [p]

section
variable (index : κ → Option Nat)

/-- Sorted by their index, which both have. -/
def Before (p q : κ × α) : Prop := (index p.1).getD 0 ≤ (index q.1).getD 0

instance : DecidableRel (Before (α := α) index) := fun _ _ => inferInstanceAs (Decidable (_ ≤ _))

def inOrder (properties : List (κ × α)) : List (κ × α) :=
  (properties.filter fun p => (index p.1).isSome).insertionSort (Before index) ++
    properties.filter fun p => (index p.1).isNone

/-- The properties after these were set, one after another. -/
def ownProperties (settings : List (κ × α)) : List (κ × α) :=
  inOrder index (settings.foldl assign [])

/-- Every key once, and in the order of an object. -/
structure IsOwn (properties : List (κ × α)) : Prop where
  nodup : (properties.map Prod.fst).Nodup
  ordered : inOrder index properties = properties

instance (properties : List (κ × α)) [DecidableEq α] : Decidable (IsOwn index properties) :=
  decidable_of_iff (_ ∧ _) ⟨fun h => ⟨h.1, h.2⟩, fun h => ⟨h.1, h.2⟩⟩

end

variable {index : κ → Option Nat} {properties settings : List (κ × α)} {p : κ × α}

theorem assign_keys (properties : List (κ × α)) (p : κ × α) :
    (assign properties p).map Prod.fst =
      if p.1 ∈ properties.map Prod.fst then properties.map Prod.fst
      else properties.map Prod.fst ++ [p.1] := by
  unfold assign
  split
  · rw [List.map_map]
    refine List.map_congr_left fun q _ => ?_
    rw [Function.comp_apply]
    split
    · rename_i h
      exact h.symm
    · rfl
  · rw [List.map_append]
    rfl

theorem assign_nodup (h : (properties.map Prod.fst).Nodup) :
    ((assign properties p).map Prod.fst).Nodup := by
  rw [assign_keys]
  split
  · exact h
  · rename_i hp
    rw [← List.concat_eq_append]
    exact h.concat hp

theorem foldl_assign_nodup (settings : List (κ × α)) :
    ∀ {properties : List (κ × α)}, (properties.map Prod.fst).Nodup →
      ((settings.foldl assign properties).map Prod.fst).Nodup := by
  induction settings with
  | nil => exact fun h => h
  | cons p settings ih => exact fun h => ih (assign_nodup h)

/-- New keys are added at the end. -/
theorem foldl_assign_append (settings : List (κ × α)) : ∀ {properties : List (κ × α)},
    ((properties ++ settings).map Prod.fst).Nodup →
      settings.foldl assign properties = properties ++ settings := by
  induction settings with
  | nil => exact fun _ => (List.append_nil _).symm
  | cons p settings ih =>
    intro properties h
    have hnew : p.1 ∉ properties.map Prod.fst := by
      rw [List.map_append, List.map_cons] at h
      exact fun hp => (List.nodup_append.mp h).2.2 _ hp _ List.mem_cons_self rfl
    have hassign : assign properties p = properties ++ [p] := if_neg hnew
    rw [List.foldl_cons, hassign, ih, List.append_assoc]
    · rfl
    · rwa [List.append_assoc]

/-! ## The order -/

omit [DecidableEq κ] in
theorem inOrder_perm (properties : List (κ × α)) : (inOrder index properties).Perm properties := by
  have hsplit := List.filter_append_perm (fun p : κ × α => (index p.1).isSome) properties
  have hnone : properties.filter (fun p => !(index p.1).isSome) =
      properties.filter fun p => (index p.1).isNone :=
    List.filter_congr fun p _ => by cases index p.1 <;> rfl
  rw [hnone] at hsplit
  exact ((List.perm_insertionSort _ _).append_right _).trans hsplit

omit [DecidableEq κ] in
instance : Std.Total (Before (α := α) index) := ⟨fun _ _ => Nat.le_total _ _⟩

omit [DecidableEq κ] in
instance : IsTrans (κ × α) (Before index) := ⟨fun _ _ _ => Nat.le_trans⟩

omit [DecidableEq κ] in
theorem inOrder_inOrder (properties : List (κ × α)) :
    inOrder index (inOrder index properties) = inOrder index properties := by
  have hindexed : ∀ p ∈ (properties.filter fun p => (index p.1).isSome).insertionSort
      (Before index), (index p.1).isSome = true := fun p hp =>
    (List.mem_filter.mp ((List.mem_insertionSort _).mp hp)).2
  have hothers : ∀ p ∈ properties.filter (fun p => (index p.1).isNone),
      (index p.1).isNone = true := fun p hp => (List.mem_filter.mp hp).2
  have hnoOther : (properties.filter fun p => (index p.1).isNone).filter
      (fun p => (index p.1).isSome) = [] := by
    refine List.filter_eq_nil_iff.mpr fun p hp hsome => ?_
    rw [Option.isNone_iff_eq_none.mp (hothers p hp)] at hsome
    cases hsome
  have hnoIndexed : ((properties.filter fun p => (index p.1).isSome).insertionSort
      (Before index)).filter (fun p => (index p.1).isNone) = [] := by
    refine List.filter_eq_nil_iff.mpr fun p hp hnone => ?_
    have hsome := hindexed p hp
    rw [Option.isNone_iff_eq_none.mp hnone] at hsome
    cases hsome
  have hfirst : (inOrder index properties).filter (fun p => (index p.1).isSome) =
      (properties.filter fun p => (index p.1).isSome).insertionSort (Before index) := by
    rw [inOrder, List.filter_append, List.filter_eq_self.mpr hindexed, hnoOther, List.append_nil]
  have hrest : (inOrder index properties).filter (fun p => (index p.1).isNone) =
      properties.filter fun p => (index p.1).isNone := by
    rw [inOrder, List.filter_append, List.filter_eq_self.mpr hothers, hnoIndexed, List.nil_append]
  conv_lhs => rw [inOrder, hfirst, hrest]
  rw [List.Pairwise.insertionSort_eq (List.pairwise_insertionSort _ _)]
  rfl

/-- However an object was built, its properties are in order. -/
theorem ownProperties_isOwn (settings : List (κ × α)) : IsOwn index (ownProperties index settings) where
  nodup := ((inOrder_perm _).map Prod.fst).nodup_iff.mpr (foldl_assign_nodup settings List.nodup_nil)
  ordered := inOrder_inOrder _

/-- Copied property by property, an object stays as it is. -/
theorem IsOwn.ownProperties (h : IsOwn index properties) : ownProperties index properties = properties := by
  rw [Collections.ownProperties, foldl_assign_append properties (by simpa using h.nodup),
    List.nil_append, h.ordered]

omit [DecidableEq κ] in
/-- Only the keys decide about the order. -/
theorem IsOwn.map {β : Type} (f : α → β) (h : IsOwn index properties) :
    IsOwn index (properties.map (Prod.map id f)) where
  nodup := by
    rw [List.map_map]
    exact h.nodup
  ordered := by
    have hfilter : ∀ test : κ → Bool, (properties.map (Prod.map id f)).filter (fun p => test p.1) =
        (properties.filter fun p => test p.1).map (Prod.map id f) := fun test => List.filter_map
    have hsorted := List.map_insertionSort (Before index) (Before index) (Prod.map id f)
      (properties.filter fun p => (index p.1).isSome) fun _ _ _ _ => Iff.rfl
    rw [inOrder, hfilter (fun key => (index key).isSome), hfilter (fun key => (index key).isNone),
      ← hsorted, ← List.map_append]
    exact congrArg _ h.ordered

/-- Every property was set. -/
theorem mem_ownProperties (h : p ∈ Collections.ownProperties index settings) : p ∈ settings := by
  have hassigned : ∀ (settings properties : List (κ × α)), p ∈ settings.foldl assign properties →
      p ∈ properties ∨ p ∈ settings := by
    intro settings
    induction settings with
    | nil => exact fun _ h => .inl h
    | cons q settings ih =>
      intro properties h
      rcases ih _ h with h | h
      · unfold assign at h
        split at h
        · obtain ⟨r, hr, heq⟩ := List.mem_map.mp h
          split at heq
          · exact .inr (heq ▸ List.mem_cons_self)
          · exact .inl (heq ▸ hr)
        · rcases List.mem_append.mp h with h | h
          · exact .inl h
          · exact .inr (List.mem_singleton.mp h ▸ List.mem_cons_self)
      · exact .inr (List.mem_cons_of_mem _ h)
  rcases hassigned settings [] ((inOrder_perm _).mem_iff.mp h) with h | h
  · cases h
  · exact h

end NewsApi.Collections
