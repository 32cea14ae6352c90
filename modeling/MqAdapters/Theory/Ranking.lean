import MqAdapters.Theory.Attempts

/-!
# Runs that get somewhere

A rank that every counted step lowers, and that no other step raises, says how many
counted steps there are before a goal is reached.

* `Leads c p I goal rank`: from the states `I`, steps that satisfy `c` lower the rank
  if they satisfy `p` and do not raise it if not, until they reach `goal`.
* `Leads.reaches`: after more counted steps than the rank allows, a run is there.
* `Leads.exists_goal`: if a counted step can always be made, some run gets there.
-/

namespace Theory

universe u v

namespace Machine

variable {σ : Type u} {α : Type v} {M : Machine σ α} {c : σ → α → Prop} {p : σ → α → Bool}
  {I goal : σ → Prop} {rank : σ → Nat} {s t : σ} {k n : Nat}

/-- Until the goal is reached, counted steps lower the rank and no others raise it. -/
structure Leads (M : Machine σ α) (c : σ → α → Prop) (p : σ → α → Bool) (I goal : σ → Prop)
    (rank : σ → Nat) : Prop where
  step : ∀ s a t, c s a → I s → M.step s a = some t →
    goal t ∨ I t ∧ rank t + (if p s a then 1 else 0) ≤ rank s
  stays : ∀ s a t, c s a → goal s → M.step s a = some t → goal t

/-- **What is counted is paid for with the rank**, until the goal is reached. -/
theorem Leads.reaches (h : M.Leads c p I goal rank) (hs : I s)
    (hrun : (M.counting p).Path (fun q a => c q.1 a) (s, 0) (t, k)) :
    goal t ∨ I t ∧ rank t + k ≤ rank s := by
  refine Path.invariant (P := fun q => goal q.1 ∨ I q.1 ∧ rank q.1 + q.2 ≤ rank s) hrun
    (.inr ⟨hs, Nat.le_refl _⟩) ?_
  intro q a r hc hq hr
  obtain ⟨ht, hcount⟩ := counting_step hr
  rcases hq with hgoal | ⟨hI, hle⟩
  · exact .inl (h.stays q.1 a r.1 hc hgoal ht)
  · refine (h.step q.1 a r.1 hc hI ht).imp_right fun ⟨hI', hlower⟩ => ⟨hI', ?_⟩
    rw [hcount]
    split at hlower <;> simp_all <;> omega

/-- After more counted steps than the rank allows, the goal is reached. -/
theorem Leads.goal_of_lt (h : M.Leads c p I goal rank) (hs : I s)
    (hrun : (M.counting p).Path (fun q a => c q.1 a) (s, 0) (t, k)) (hk : rank s < k) :
    goal t := by
  rcases h.reaches hs hrun with hgoal | ⟨-, hle⟩
  · exact hgoal
  · omega

/-- **The goal can be reached**, if wherever it is not a counted step can be made. -/
theorem Leads.exists_goal (h : M.Leads c p I goal rank)
    (hmove : ∀ s, I s → ¬ goal s →
      ∃ t k, (M.counting p).Path (fun q a => c q.1 a) (s, 0) (t, k + 1))
    (hs : I s) : ∃ t, M.Path c s t ∧ goal t := by
  induction hn : rank s using Nat.strongRecOn generalizing s with
  | ind n ih =>
    by_cases hgoal : goal s
    · exact ⟨s, Path.refl s, hgoal⟩
    obtain ⟨t, k, hrun⟩ := hmove s hs hgoal
    have hpath : M.Path c s t := Path.of_counting hrun
    rcases h.reaches hs hrun with hgoal | ⟨hI, hle⟩
    · exact ⟨t, hpath, hgoal⟩
    · obtain ⟨u, hu, hgoal⟩ := ih (rank t) (by omega) hI rfl
      exact ⟨u, hpath.trans hu, hgoal⟩

end Machine

end Theory
