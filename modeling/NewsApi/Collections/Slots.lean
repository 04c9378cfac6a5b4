import Mathlib.Data.List.Basic

/-! # Numbered entries

What stands in a place of a list after one entry was changed or added. -/
namespace NewsApi.Collections

variable {α : Type*} {xs : List α} {x y : α} {i j : Nat}

theorem getElem?_set_here (h : xs[i]? = some x) (y : α) : (xs.set i y)[i]? = some y :=
  List.getElem?_set_self (List.getElem?_eq_some_iff.mp h).1

theorem getElem?_set_cases (h : (xs.set i x)[j]? = some y) :
    j = i ∧ y = x ∨ j ≠ i ∧ xs[j]? = some y := by
  rw [List.getElem?_set] at h
  split at h
  · rename_i hij
    split at h <;> cases h
    exact .inl ⟨hij.symm, rfl⟩
  · rename_i hij
    exact .inr ⟨Ne.symm hij, h⟩

/-- How the entries go on when one of them is replaced. -/
theorem getElem?_set_goes {R : Nat → α → α → Prop} {x' : α} (hi : xs[i]? = some x)
    (hx : R i x x') (hothers : ∀ j y, j ≠ i → R j y y) (hj : xs[j]? = some y) :
    ∃ y', (xs.set i x')[j]? = some y' ∧ R j y y' := by
  by_cases hij : i = j
  · subst hij
    cases hi.symm.trans hj
    exact ⟨x', getElem?_set_here hi x', hx⟩
  · exact ⟨y, (List.getElem?_set_ne hij).trans hj, hothers j y (Ne.symm hij)⟩

theorem getElem?_append_old (h : xs[i]? = some x) (ys : List α) : (xs ++ ys)[i]? = some x :=
  (List.getElem?_append_left (List.getElem?_eq_some_iff.mp h).1).trans h

theorem getElem?_append_cases (h : (xs ++ [x])[j]? = some y) :
    j < xs.length ∧ xs[j]? = some y ∨ j = xs.length ∧ y = x := by
  rw [List.getElem?_append] at h
  split at h
  · rename_i hj
    exact .inl ⟨hj, h⟩
  · simp only [List.getElem?_singleton, Option.ite_none_right_eq_some, Option.some.injEq] at h
    exact .inr ⟨by omega, h.2.symm⟩

theorem getElem?_modify_cases {f : α → α} (h : (xs.modify i f)[j]? = some y) :
    (j = i ∧ ∃ x, xs[i]? = some x ∧ y = f x) ∨ (j ≠ i ∧ xs[j]? = some y) := by
  rw [List.getElem?_modify] at h
  by_cases hij : i = j
  · subst hij
    obtain ⟨x, hx, rfl⟩ := Option.map_eq_some_iff.mp h
    exact .inl ⟨rfl, x, by simpa using hx⟩
  · exact .inr ⟨Ne.symm hij, by simpa [hij] using h⟩

/-- The entry just added. -/
theorem modify_append (xs : List α) (x : α) (f : α → α) :
    (xs ++ [x]).modify xs.length f = xs ++ [f x] := by
  induction xs with
  | nil => rfl
  | cons y xs ih => simpa using ih

end NewsApi.Collections
