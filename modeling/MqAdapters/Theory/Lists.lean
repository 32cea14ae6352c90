import Mathlib.Data.List.Basic

/-!
# Lists that number what they hold

What a list holds is known by its place.  Something new comes at the end, and what
is there is changed where it stands.

* `getElem?_concat`: what is found once something was added.
* `countP_set_add`, `countP_set_le`: how many satisfy `p` once one was changed.
* `mem_set_of_ne`, `mem_eraseIdx_of_ne`: the others are still there.
-/

namespace Theory

universe u

variable {α : Type u} {p : α → Bool} {l : List α} {x y : α} {i : Nat}

/-! ## Something is added -/

theorem getElem?_concat (l : List α) (x : α) (i : Nat) :
    (l ++ [x])[i]? = if i = l.length then some x else l[i]? := by
  split
  · next h =>
    subst h
    exact List.getElem?_concat_length
  · next h =>
    rcases Nat.lt_or_gt_of_ne h with hlt | hgt
    · exact List.getElem?_append_left hlt
    · rw [List.getElem?_eq_none (by simp; omega), List.getElem?_eq_none (by omega)]

theorem getElem?_concat_of_some (h : l[i]? = some y) : (l ++ [x])[i]? = some y := by
  rw [List.getElem?_append_left (List.getElem?_eq_some_iff.mp h).1, h]

theorem of_getElem?_concat (h : (l ++ [x])[i]? = some y) :
    l[i]? = some y ∨ i = l.length ∧ y = x := by
  rw [getElem?_concat] at h
  split at h
  · next hi => exact .inr ⟨hi, (Option.some.inj h).symm⟩
  · exact .inl h

/-- If `p` holds of all but the last, what does not satisfy it is the last. -/
theorem eq_length_of_getElem? (hl : l.all p = true) (hi : (l ++ [x])[i]? = some y)
    (hy : p y = false) : i = l.length ∧ x = y := by
  rcases of_getElem?_concat hi with hi | ⟨hlen, hyx⟩
  · rw [List.all_eq_true.mp hl y (List.mem_of_getElem? hi)] at hy
    cases hy
  · exact ⟨hlen, hyx.symm⟩

/-! ## Something is changed -/

theorem countP_set_add (hi : l[i]? = some x) :
    (l.set i y).countP p + (if p x then 1 else 0) = l.countP p + if p y then 1 else 0 := by
  obtain ⟨hlt, rfl⟩ := List.getElem?_eq_some_iff.mp hi
  rw [List.countP_set hlt]
  split
  · next hp =>
    have : 0 < l.countP p := List.countP_pos_iff.mpr ⟨_, List.getElem_mem hlt, hp⟩
    omega
  · omega

theorem countP_set_le (hi : l[i]? = some x) (h : p y = true → p x = true) :
    (l.set i y).countP p ≤ l.countP p := by
  have hcount := countP_set_add (p := p) (y := y) hi
  cases hy : p y with
  | true =>
    rw [hy, h hy] at hcount
    omega
  | false =>
    simp only [hy, Bool.false_eq_true, if_false] at hcount
    omega

theorem of_getElem?_set {z : α} {j : Nat} (h : (l.set i y)[j]? = some z) :
    i = j ∧ z = y ∨ i ≠ j ∧ l[j]? = some z := by
  by_cases hij : i = j
  · subst hij
    obtain ⟨hlt, hz⟩ := List.getElem?_eq_some_iff.mp h
    exact .inl ⟨rfl, by rw [← hz, List.getElem_set_self]⟩
  · rw [List.getElem?_set_ne hij] at h
    exact .inr ⟨hij, h⟩

/-- What is not in the place that changes stays. -/
theorem mem_set_of_ne {z : α} (hi : l[i]? = some x) (hy : y ∈ l) (hne : y ≠ x) :
    y ∈ l.set i z := by
  obtain ⟨j, hj⟩ := List.mem_iff_getElem?.mp hy
  have hij : i ≠ j := by
    rintro rfl
    exact hne (Option.some.inj (hj.symm.trans hi))
  exact List.mem_of_getElem? (by rw [List.getElem?_set_ne hij, hj])

theorem mem_eraseIdx_of_ne (hi : l[i]? = some x) (hy : y ∈ l) (hne : y ≠ x) :
    y ∈ l.eraseIdx i := by
  obtain ⟨j, hj⟩ := List.mem_iff_getElem?.mp hy
  refine List.mem_eraseIdx_iff_getElem?.mpr ⟨j, ?_, hj⟩
  rintro rfl
  exact hne (Option.some.inj (hj.symm.trans hi))

end Theory
