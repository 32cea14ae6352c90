import Mathlib.Data.List.Basic

/-!
# Loops that report what they do

A round of a loop does something and then either goes on in a new state or
ends with a result.  `rounds body n s` is what at most `n` rounds from `s` do,
and the result, `none` if the loop has not ended by then.

* `rounds_add`, `rounds_eq_of_ends`: a loop whose states are known runs through
  them and ends with the round that ends.
* `rounds_simulate`: two loops whose rounds agree do the same.
-/

namespace Theory

universe u v w x

variable {σ : Type u} {τ : Type x} {ω : Type v} {ρ : Type w}

/-- At most `n` rounds of a loop. -/
def rounds (body : σ → List ω × (σ ⊕ ρ)) : Nat → σ → List ω × Option ρ
  | 0, _ => ([], none)
  | n + 1, s =>
    match body s with
    | (acts, .inl t) => (acts ++ (rounds body n t).1, (rounds body n t).2)
    | (acts, .inr r) => (acts, some r)

variable {body : σ → List ω × (σ ⊕ ρ)}

theorem rounds_of_goes {n : Nat} {s t : σ} {acts : List ω} (h : body s = (acts, .inl t)) :
    rounds body (n + 1) s = (acts ++ (rounds body n t).1, (rounds body n t).2) := by
  rw [rounds, h]

theorem rounds_of_ends {n : Nat} {s : σ} {acts : List ω} {r : ρ} (h : body s = (acts, .inr r)) :
    rounds body (n + 1) s = (acts, some r) := by
  rw [rounds, h]

/-- **The first `k` rounds run through known states.** -/
theorem rounds_add (k : Nat) {s : Nat → σ} {acts : Nat → List ω}
    (h : ∀ i, i < k → body (s i) = (acts i, .inl (s (i + 1)))) (n : Nat) :
    rounds body (k + n) (s 0) =
      ((List.range k).flatMap acts ++ (rounds body n (s k)).1, (rounds body n (s k)).2) := by
  induction k generalizing s acts with
  | zero => simp
  | succ k ih =>
    have hrest : rounds body (k + n) (s 1) =
        ((List.range k).flatMap (fun i => acts (i + 1)) ++ (rounds body n (s (k + 1))).1,
          (rounds body n (s (k + 1))).2) :=
      ih (s := fun i => s (i + 1)) fun i hi => h (i + 1) (by omega)
    rw [show k + 1 + n = (k + n) + 1 by omega, rounds_of_goes (h 0 (by omega)), hrest,
      List.range_succ_eq_map, List.flatMap_cons, List.flatMap_map, List.append_assoc]

/-- **A loop ends with the first round that ends.** -/
theorem rounds_eq_of_ends {k n : Nat} (hn : k < n) {s : Nat → σ} {acts : Nat → List ω}
    (h : ∀ i, i < k → body (s i) = (acts i, .inl (s (i + 1)))) {last : List ω} {r : ρ}
    (hlast : body (s k) = (last, .inr r)) :
    rounds body n (s 0) = ((List.range k).flatMap acts ++ last, some r) := by
  obtain ⟨m, rfl⟩ : ∃ m, n = k + (m + 1) := ⟨n - k - 1, by omega⟩
  rw [rounds_add k h, rounds_of_ends hlast]

/-- **What every round does, the loop does.**  `P` is an invariant of the rounds. -/
theorem rounds_acts {P : σ → Prop} {Q : ω → Prop}
    (h : ∀ s, P s → (∀ act ∈ (body s).1, Q act) ∧ ∀ t, (body s).2 = .inl t → P t) (n : Nat)
    {s : σ} (hs : P s) : ∀ act ∈ (rounds body n s).1, Q act := by
  induction n generalizing s with
  | zero => exact fun act hact => absurd hact List.not_mem_nil
  | succ n ih =>
    intro act hact
    obtain ⟨hacts, hgoes⟩ := h s hs
    rcases hb : body s with ⟨acts, t | r⟩
    · rw [hb] at hacts hgoes
      rw [rounds_of_goes hb] at hact
      rcases List.mem_append.mp hact with hact | hact
      · exact hacts act hact
      · exact ih (hgoes t rfl) act hact
    · rw [hb] at hacts
      rw [rounds_of_ends hb] at hact
      exact hacts act hact

/-- **Two loops whose rounds agree do the same.** -/
theorem rounds_simulate {body' : τ → List ω × (τ ⊕ ρ)} {f : σ → τ}
    (h : ∀ s, body' (f s) = ((body s).1, (body s).2.map f id)) (n : Nat) (s : σ) :
    rounds body' n (f s) = rounds body n s := by
  induction n generalizing s with
  | zero => rfl
  | succ n ih =>
    have hs := h s
    rcases hb : body s with ⟨acts, t | r⟩
    · rw [hb] at hs
      rw [rounds_of_goes hb, rounds_of_goes hs, ih]
    · rw [hb] at hs
      rw [rounds_of_ends hb, rounds_of_ends hs]
      rfl

end Theory
