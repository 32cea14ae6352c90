import MqAdapters.Theory.Machine

/-!
# Loops that try again

When an attempt fails, a loop tries again or gives up.  `next` says which, by what
the loop has counted: `next i` is what it has counted after the next failure, and
`none` says that it gives up.  `lasts next n i` says that it goes on after `n` more
failures.

* `counting p`: a machine with the number of its steps that satisfy `p`.
* `AtMost c p n s`: in every run from `s` whose steps satisfy `c`, at most `n` steps
  satisfy `p`.
* `not_atMost_of_lasts`, `atMost_of_invariant` with `Spare` and `Spent`: the two
  directions of what `lasts` decides.
-/

namespace Theory

universe u v w

section

variable {ι : Type w} {next : ι → Option ι} {n k : Nat} {i j : ι}

/-- The loop goes on after `n` failures. -/
def lasts (next : ι → Option ι) : Nat → ι → Bool
  | 0, _ => true
  | n + 1, i => (next i).any (lasts next n)

theorem lasts_succ (h : next i = some j) : lasts next (n + 1) i = lasts next n j := by
  rw [lasts, h, Option.any_some]

theorem lasts_of_succ (h : lasts next (n + 1) i = true) : lasts next n i = true := by
  induction n generalizing i with
  | zero => rfl
  | succ n ih =>
    obtain ⟨j, hj, hlast⟩ := (Option.any_eq_true _ _).mp h
    rw [lasts_succ hj]
    exact ih hlast

/-- With `k` of `n` attempts made, the loop gives up within the others. -/
def Spare (next : ι → Option ι) (n : Nat) (i : ι) (k : Nat) : Prop :=
  ∃ m, k + m = n ∧ lasts next m i = false

/-- The same before the last of these `k` attempts, which has failed. -/
def Spent (next : ι → Option ι) (n : Nat) (i : ι) (k : Nat) : Prop :=
  ∃ l, k = l + 1 ∧ Spare next n i l

theorem spare_zero : Spare next n i 0 ↔ lasts next n i = false := by
  constructor
  · rintro ⟨m, hm, hlast⟩
    obtain rfl : m = n := by omega
    exact hlast
  · exact fun h => ⟨n, by omega, h⟩

theorem Spare.le (h : Spare next n i k) : k ≤ n := by
  obtain ⟨m, hm, -⟩ := h
  omega

theorem Spare.spend (h : Spare next n i k) : Spent next n i (k + 1) := ⟨k, rfl, h⟩

theorem Spent.le (h : Spent next n i k) : k ≤ n := by
  obtain ⟨l, rfl, m, hm, hlast⟩ := h
  cases m with
  | zero => cases hlast
  | succ m => omega

/-- The loop goes on after the attempt. -/
theorem Spent.goes (h : Spent next n i k) (hj : next i = some j) : Spare next n j k := by
  obtain ⟨l, rfl, m, hm, hlast⟩ := h
  cases m with
  | zero => cases hlast
  | succ m =>
    rw [lasts_succ hj] at hlast
    exact ⟨m, by omega, hlast⟩

/-- The loop counts a failure that was no attempt. -/
theorem Spare.skip (h : Spare next n i k) (hj : next i = some j) : Spare next n j k := by
  obtain ⟨m, hm, hlast⟩ := h
  refine ⟨m, hm, ?_⟩
  rw [← lasts_succ (n := m) hj]
  by_contra hsucc
  rw [lasts_of_succ (by simpa using hsucc)] at hlast
  cases hlast

end

namespace Machine

variable {σ : Type u} {α : Type v} (M : Machine σ α) {c : σ → α → Prop} {p : σ → α → Bool}

/-- The machine with the number of its steps that satisfy `p`. -/
def counting (p : σ → α → Bool) : Machine (σ × Nat) α where
  init := (M.init, 0)
  step q a := (M.step q.1 a).map fun t => (t, if p q.1 a then q.2 + 1 else q.2)

/-- In every run from `s` whose steps satisfy `c`, at most `n` satisfy `p`. -/
def AtMost (c : σ → α → Prop) (p : σ → α → Bool) (n : Nat) (s : σ) : Prop :=
  ∀ t k, (M.counting p).Path (fun q a => c q.1 a) (s, 0) (t, k) → k ≤ n

variable {M} {s t u : σ} {k l n : Nat}

theorem counting_step {q r : σ × Nat} {a : α} (h : (M.counting p).step q a = some r) :
    M.step q.1 a = some r.1 ∧ r.2 = if p q.1 a then q.2 + 1 else q.2 := by
  obtain ⟨t, ht, rfl⟩ := Option.map_eq_some_iff.mp h
  exact ⟨ht, rfl⟩

/-- One more step, which is not counted. -/
theorem Path.pass {q : σ × Nat} (h : (M.counting p).Path (fun q a => c q.1 a) q (t, k)) (a : α)
    (hc : c t a) (hp : p t a = false) (hu : M.step t a = some u) :
    (M.counting p).Path (fun q a => c q.1 a) q (u, k) :=
  h.snoc (a := a) hc (by simp [counting, hu, hp])

/-- One more step, which is counted. -/
theorem Path.count {q : σ × Nat} (h : (M.counting p).Path (fun q a => c q.1 a) q (t, k)) (a : α)
    (hc : c t a) (hp : p t a = true) (hu : M.step t a = some u) :
    (M.counting p).Path (fun q a => c q.1 a) q (u, k + 1) :=
  h.snoc (a := a) hc (by simp [counting, hu, hp])

theorem Path.of_counting {q r : σ × Nat} (h : (M.counting p).Path (fun q a => c q.1 a) q r) :
    M.Path c q.1 r.1 :=
  Path.invariant (P := fun r => M.Path c q.1 r.1) h (Path.refl _) fun _ _ _ hc hq hr =>
    hq.snoc hc (counting_step hr).1

/-- What is left to count after steps that are not counted. -/
theorem AtMost.along (h : M.AtMost c p n s)
    (hpath : (M.counting p).Path (fun q a => c q.1 a) (s, 0) (t, 0)) : M.AtMost c p n t :=
  fun u k hu => h u k (hpath.trans hu)

/-- **What every step keeps of a state and of the count**, with a bound on the count. -/
theorem atMost_of_invariant {I : σ → Nat → Prop} (h0 : I s 0) (hle : ∀ t k, I t k → k ≤ n)
    (hstep : ∀ t a u k, c t a → I t k → M.step t a = some u →
      I u (if p t a then k + 1 else k)) : M.AtMost c p n s := by
  intro t k h
  refine hle t k (Path.invariant (P := fun q => I q.1 q.2) h h0 fun q a r hc hq hr => ?_)
  obtain ⟨ht, hcount⟩ := counting_step hr
  exact hcount ▸ hstep q.1 a r.1 q.2 hc hq ht

/-- **Round by round** a loop gets as far as it lasts. -/
theorem exists_rounds {ι : Type w} {next : ι → Option ι} (Head : ι → σ → Prop) (f : Nat → ι)
    (hround : ∀ i j s k, Head i s → next i = some j →
      ∃ t, (M.counting p).Path (fun q a => c q.1 a) (s, k) (t, k + 1) ∧ Head j t)
    (hs : Head (f 0) s) (hf : ∀ m, m < n → next (f m) = some (f (m + 1))) :
    ∃ t, M.Path c s t ∧ Head (f n) t := by
  induction n with
  | zero => exact ⟨s, Path.refl s, hs⟩
  | succ n ih =>
    obtain ⟨t, ht, hhead⟩ := ih fun m hm => hf m (by omega)
    obtain ⟨u, hu, hnext⟩ := hround _ _ t 0 hhead (hf n (by omega))
    exact ⟨u, ht.trans (Path.of_counting hu), hnext⟩

/-- **A loop that lasts for `n` failures makes more than `n` attempts**, where it can
make one in every round and in the round after. -/
theorem not_atMost_of_lasts {ι : Type w} {next : ι → Option ι} {Head : ι → σ → Prop}
    (hround : ∀ i j s k, Head i s → next i = some j →
      ∃ t, (M.counting p).Path (fun q a => c q.1 a) (s, k) (t, k + 1) ∧ Head j t)
    (hattempt : ∀ i s k, Head i s →
      ∃ t, (M.counting p).Path (fun q a => c q.1 a) (s, k) (t, k + 1))
    {i : ι} (hs : Head i s) (hlast : lasts next n i = true) : ¬ M.AtMost c p n s := by
  -- the rounds that are survived, one by one
  have hrun : ∀ n i s k, Head i s → lasts next n i = true →
      ∃ t, (M.counting p).Path (fun q a => c q.1 a) (s, k) (t, k + n + 1) := by
    intro n
    induction n with
    | zero => exact fun i s k hs _ => hattempt i s k hs
    | succ n ih =>
      intro i s k hs hlast
      obtain ⟨j, hj, hlast⟩ := (Option.any_eq_true _ _).mp hlast
      obtain ⟨t, ht, hhead⟩ := hround i j s k hs hj
      obtain ⟨u, hu⟩ := ih j t (k + 1) hhead hlast
      exact ⟨u, (show k + (n + 1) + 1 = k + 1 + n + 1 by omega) ▸ ht.trans hu⟩
  intro hmost
  obtain ⟨t, ht⟩ := hrun n i s 0 hs hlast
  have := hmost t _ ht
  omega

end Machine

end Theory
