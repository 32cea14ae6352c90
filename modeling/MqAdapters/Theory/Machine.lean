import Mathlib.Data.List.Induction
import Mathlib.Logic.Relation

/-!
# Machines that move by actions

A `Machine` is a start state and a partial step function: `step s a` is the
state after the action `a`, and `none` says that `a` is not enabled in `s`.
The choices a program does not make itself (which thread moves, what a call
answers, when a timer fires) are all inside the action, so a run is a list of
actions and can be evaluated.

* `Path c s t`: `t` is reached from `s` by steps that all satisfy `c`, a
  condition on the state before the step and on the action.
* `Path.invariant`, `Reach.invariant`: what every such step keeps, every such
  run keeps.
* `Path.simulate`: a machine whose steps are steps of another, or stand still
  in it, has its runs.
* `path_of_runIn`, `path_of_isSome`: a run evaluated on a list of actions is a
  path.  `runIn_invariant`: what every step keeps of a state and of the actions
  so far, every run keeps.
* `traced`: the machine with the steps it has taken, for what is counted along a
  run.  `logged`: the machine with what its steps say;
  `Reach.simulate_logged`: a machine that follows another has its logs.
* `family`: any number of machines that arrive one by one and then move
  independently of each other.  `family_member` says that a member of a
  reachable family is reachable on its own, so a property of one machine holds
  in any interleaving of many.
-/

namespace Theory

universe u v w x

/-- A start state and a partial step function. -/
structure Machine (σ : Type u) (α : Type v) where
  init : σ
  step : σ → α → Option σ

namespace Machine

variable {σ : Type u} {α : Type v} (M : Machine σ α) {c d : σ → α → Prop}

/-- One step by an action that satisfies `c`. -/
def Move (c : σ → α → Prop) (s t : σ) : Prop := ∃ a, c s a ∧ M.step s a = some t

/-- `t` is reached from `s` by steps that all satisfy `c`. -/
def Path (c : σ → α → Prop) : σ → σ → Prop := Relation.ReflTransGen (M.Move c)

/-- Reached from the start state by steps that all satisfy `c`. -/
def Reach (c : σ → α → Prop) (s : σ) : Prop := M.Path c M.init s

/-- The condition that every step satisfies. -/
def anyStep : σ → α → Prop := fun _ _ => True

variable {M}

theorem Path.refl (s : σ) : M.Path c s s := Relation.ReflTransGen.refl

theorem Path.snoc {s t u : σ} {a : α} (h : M.Path c s t) (ha : c t a) (ht : M.step t a = some u) :
    M.Path c s u :=
  Relation.ReflTransGen.tail h ⟨a, ha, ht⟩

theorem Path.trans {s t u : σ} (h : M.Path c s t) (g : M.Path c t u) : M.Path c s u :=
  Relation.ReflTransGen.trans h g

theorem Path.mono (hcd : ∀ s a, c s a → d s a) {s t : σ} (h : M.Path c s t) : M.Path d s t :=
  Relation.ReflTransGen.mono (fun s _ ⟨a, ha, hs⟩ => ⟨a, hcd s a ha, hs⟩) _ _ h

/-- **What every step keeps, every run keeps.** -/
theorem Path.invariant {P : σ → Prop} {s t : σ} (h : M.Path c s t) (h0 : P s)
    (hstep : ∀ s a t, c s a → P s → M.step s a = some t → P t) : P t := by
  induction h with
  | refl => exact h0
  | tail _ hm ih =>
    obtain ⟨a, ha, ht⟩ := hm
    exact hstep _ a _ ha ih ht

theorem Reach.init : M.Reach c M.init := Path.refl _

theorem Reach.snoc {s t : σ} {a : α} (h : M.Reach c s) (ha : c s a) (ht : M.step s a = some t) :
    M.Reach c t :=
  Path.snoc h ha ht

theorem Reach.mono (hcd : ∀ s a, c s a → d s a) {s : σ} (h : M.Reach c s) : M.Reach d s :=
  Path.mono hcd h

/-- The invariant rule, with the reachability of the state before the step at
hand. -/
theorem Reach.invariant {P : σ → Prop} {s : σ} (h : M.Reach c s) (h0 : P M.init)
    (hstep : ∀ s a t, M.Reach c s → c s a → P s → M.step s a = some t → P t) : P s := by
  suffices M.Reach c s ∧ P s from this.2
  refine Path.invariant (P := fun s => M.Reach c s ∧ P s) h ⟨Reach.init, h0⟩ ?_
  rintro s a t ha ⟨hr, hp⟩ ht
  exact ⟨hr.snoc ha ht, hstep s a t hr ha hp ht⟩

/-! ## Simulation -/

/-- The step `b` leads from `s` to `t`; without a step, nothing changes. -/
def Goes (N : Machine σ α) (s t : σ) : Option α → Prop
  | none => t = s
  | some b => N.step s b = some t

@[simp] theorem goes_none {N : Machine σ α} {s t : σ} : N.Goes s t none ↔ t = s := Iff.rfl

@[simp] theorem goes_some {N : Machine σ α} {s t : σ} {b : α} :
    N.Goes s t (some b) ↔ N.step s b = some t := Iff.rfl

/-- **A machine that follows another, step by step or standing still**, follows
its paths.  `P` is an invariant of the following machine. -/
theorem Path.simulate {σ' : Type w} {α' : Type x} {N : Machine σ' α'} {d : σ' → α' → Prop}
    {f : σ → σ'} {l : σ → α → Option α'} {P : σ → Prop}
    (hP : ∀ s a t, P s → M.step s a = some t → P t)
    (hsim : ∀ s a t, P s → M.step s a = some t → N.Goes (f s) (f t) (l s a))
    (hcd : ∀ s a b, P s → c s a → l s a = some b → d (f s) b)
    {s t : σ} (h : M.Path c s t) (hs : P s) : P t ∧ N.Path d (f s) (f t) := by
  refine Path.invariant (P := fun t => P t ∧ N.Path d (f s) (f t)) h ⟨hs, Path.refl _⟩ ?_
  rintro t a u ha ⟨ht, ih⟩ hu
  refine ⟨hP t a u ht hu, ?_⟩
  have hs := hsim t a u ht hu
  rcases hl : l t a with _ | b <;> rw [hl] at hs
  · exact (show f u = f t from hs) ▸ ih
  · exact ih.snoc (hcd t a b ht ha hl) hs

/-! ## Runs on a list of actions -/

variable (M)

/-- Run a list of actions, checking `c` before each. -/
def runIn (c : σ → α → Bool) : σ → List α → Option σ
  | s, [] => some s
  | s, a :: as => if c s a then (M.step s a).bind (fun t => runIn c t as) else none

variable {M}

theorem path_of_runIn {c : σ → α → Bool} {s t : σ} {as : List α}
    (h : M.runIn c s as = some t) : M.Path (fun s a => c s a = true) s t := by
  induction as generalizing s with
  | nil => rw [runIn, Option.some.injEq] at h; exact h ▸ Path.refl s
  | cons a as ih =>
    rw [runIn] at h
    split at h
    · next hc =>
      obtain ⟨u, hu, ht⟩ := Option.bind_eq_some_iff.mp h
      exact Path.trans (Path.snoc (Path.refl s) hc hu) (ih ht)
    · exact absurd h (by simp)

/-- A run that gets through ends in the state it computes. -/
theorem runIn_of_isSome {c : σ → α → Bool} {s : σ} {as : List α}
    (h : (M.runIn c s as).isSome = true) (d : σ) :
    M.runIn c s as = some ((M.runIn c s as).getD d) := by
  obtain ⟨t, ht⟩ := Option.isSome_iff_exists.mp h
  rw [ht, Option.getD_some]

theorem path_of_isSome {c : σ → α → Bool} {s : σ} {as : List α}
    (h : (M.runIn c s as).isSome = true) (d : σ) :
    M.Path (fun s a => c s a = true) s ((M.runIn c s as).getD d) :=
  path_of_runIn (runIn_of_isSome h d)

/-- A run on two lists is a run on the first and from there on the second. -/
theorem runIn_append {c : σ → α → Bool} {s : σ} (as bs : List α) :
    M.runIn c s (as ++ bs) = (M.runIn c s as).bind fun t => M.runIn c t bs := by
  induction as generalizing s with
  | nil => rfl
  | cons a as ih =>
    simp only [List.cons_append, runIn]
    split
    · rw [Option.bind_assoc]
      exact congrArg _ (funext fun t => ih)
    · rfl

theorem runIn_singleton {c : σ → α → Bool} {s : σ} (a : α) :
    M.runIn c s [a] = if c s a then M.step s a else none := by
  simp [runIn]

/-- A weaker condition lets every run through. -/
theorem runIn_mono {c d : σ → α → Bool} (hcd : ∀ s a, c s a = true → d s a = true) {s t : σ}
    {as : List α} (h : M.runIn c s as = some t) : M.runIn d s as = some t := by
  induction as generalizing s with
  | nil => exact h
  | cons a as ih =>
    rw [runIn] at h ⊢
    split at h
    · next hc =>
      obtain ⟨u, hu, h⟩ := Option.bind_eq_some_iff.mp h
      rw [if_pos (hcd s a hc), hu]
      exact ih h
    · exact absurd h (by simp)

/-- **What every step keeps of a state and of the actions that led to it**, every
run keeps. -/
theorem runIn_invariant {c : σ → α → Bool} {P : List α → σ → Prop} {s : σ} {as : List α}
    (h : M.runIn c M.init as = some s) (h0 : P [] M.init)
    (hstep : ∀ as s a t, M.runIn c M.init as = some s → c s a = true → P as s →
      M.step s a = some t → P (as ++ [a]) t) : P as s := by
  induction as using List.reverseRecOn generalizing s with
  | nil => exact Option.some.inj h ▸ h0
  | append_singleton as a ih =>
    rw [runIn_append] at h
    obtain ⟨t, ht, h⟩ := Option.bind_eq_some_iff.mp h
    rw [runIn_singleton] at h
    split at h
    · next hc => exact hstep as t a s ht hc (ih ht) h
    · exact absurd h (by simp)

/-! ## The steps of a run -/

variable (M)

/-- The machine with the steps it has taken, each by the state before it and its
action. -/
def traced : Machine (σ × List (σ × α)) α where
  init := (M.init, [])
  step p a := (M.step p.1 a).map fun t => (t, p.2 ++ [(p.1, a)])

variable {M}

theorem traced_step {p q : σ × List (σ × α)} {a : α} (h : M.traced.step p a = some q) :
    M.step p.1 a = some q.1 ∧ q.2 = p.2 ++ [(p.1, a)] := by
  obtain ⟨t, ht, rfl⟩ := Option.map_eq_some_iff.mp h
  exact ⟨ht, rfl⟩

/-- **What every step keeps of a state and of the steps that led to it**, every run
keeps. -/
theorem Path.trace_invariant {P : σ → List (σ × α) → Prop} {s t : σ} {past trace : List (σ × α)}
    (h : M.traced.Path (fun p a => c p.1 a) (s, past) (t, trace)) (h0 : P s past)
    (hstep : ∀ s a t trace, c s a → P s trace → M.step s a = some t → P t (trace ++ [(s, a)])) :
    P t trace := by
  refine Path.invariant (P := fun p => P p.1 p.2) h h0 fun p a q hc hp hq => ?_
  obtain ⟨ht, htrace⟩ := traced_step hq
  exact htrace ▸ hstep p.1 a q.1 p.2 hc hp ht

/-- A run of the machine with its steps is a run of the machine. -/
theorem Path.of_traced {p q : σ × List (σ × α)} (h : M.traced.Path (fun p a => c p.1 a) p q) :
    M.Path c p.1 q.1 :=
  Path.invariant (P := fun q => M.Path c p.1 q.1) h (Path.refl _) fun _ _ _ hc hp hq =>
    hp.snoc hc (traced_step hq).1

/-! ## The log of a run -/

variable {β : Type w}

/-- The machine with a log, to which each step may add what it says. -/
def logged (M : Machine σ α) (said : σ → α → Option β) : Machine (σ × List β) α where
  init := (M.init, [])
  step p a := (M.step p.1 a).map fun t => (t, p.2 ++ (said p.1 a).toList)

theorem logged_step {said : σ → α → Option β} {p q : σ × List β} {a : α}
    (h : (M.logged said).step p a = some q) :
    M.step p.1 a = some q.1 ∧ q.2 = p.2 ++ (said p.1 a).toList := by
  obtain ⟨t, ht, rfl⟩ := Option.map_eq_some_iff.mp h
  exact ⟨ht, rfl⟩

/-- A run with a log is a run. -/
theorem Reach.of_logged {said : σ → α → Option β} {p : σ × List β}
    (h : (M.logged said).Reach (fun p a => c p.1 a) p) : M.Reach c p.1 :=
  Path.invariant (P := fun p => M.Reach c p.1) h Reach.init fun _ _ _ hc hp hq =>
    hp.snoc hc (logged_step hq).1

/-- **A machine that follows another and says the same** has its logs. -/
theorem Reach.simulate_logged {σ' : Type u} {α' : Type v} {N : Machine σ' α'} {f : σ → σ'}
    {l : σ → α → Option α'} {P : σ → Prop} {said : σ → α → Option β} {said' : σ' → α' → Option β}
    (h0 : P M.init) (hinit : f M.init = N.init)
    (hP : ∀ s a t, P s → M.step s a = some t → P t)
    (hsim : ∀ s a t, P s → M.step s a = some t → N.Goes (f s) (f t) (l s a))
    (hsaid : ∀ s a t, P s → M.step s a = some t → said s a = (l s a).bind (said' (f s)))
    {p : σ × List β} (h : (M.logged said).Reach (fun p a => c p.1 a) p) :
    (N.logged said').Reach anyStep (f p.1, p.2) := by
  suffices hp : P p.1 ∧ (N.logged said').Reach anyStep (f p.1, p.2) from hp.2
  refine Path.invariant
    (P := fun p => P p.1 ∧ (N.logged said').Reach anyStep (f p.1, p.2)) h ⟨h0, ?_⟩ ?_
  · have hr : (N.logged said').Reach anyStep (N.init, []) := Reach.init
    rw [← hinit] at hr
    exact hr
  · rintro p a q hc ⟨hp, ih⟩ hq
    obtain ⟨ht, hlog⟩ := logged_step hq
    refine ⟨hP p.1 a q.1 hp ht, ?_⟩
    have hs := hsim p.1 a q.1 hp ht
    rw [hlog, hsaid p.1 a q.1 hp ht]
    rcases hl : l p.1 a with _ | b <;> rw [hl] at hs
    · rw [show f q.1 = f p.1 from hs]
      simpa using ih
    · rw [goes_some] at hs
      exact ih.snoc (a := b) trivial (by simp only [Machine.logged, hs]; rfl)

/-! ## Families -/

variable {D : Type w}

/-- Any number of machines, each with the datum it was started for: a new one
arrives, or one of those present moves. -/
def family (F : D → Machine σ α) : Machine (List (D × σ)) (D ⊕ (Nat × α)) where
  init := []
  step s
    | .inl d => some (s ++ [(d, (F d).init)])
    | .inr (i, a) => (s[i]?).bind fun p => ((F p.1).step p.2 a).map fun t => s.set i (p.1, t)

/-- The condition that every member moves by steps that satisfy its own. -/
def familyStep (c : D → σ → α → Prop) : List (D × σ) → D ⊕ (Nat × α) → Prop
  | _, .inl _ => True
  | s, .inr (i, a) => ∀ p, s[i]? = some p → c p.1 p.2 a

/-- **A member of a reachable family is reachable on its own.** -/
theorem family_member {F : D → Machine σ α} {c : D → σ → α → Prop} {s : List (D × σ)}
    (h : (family F).Reach (familyStep c) s) : ∀ p ∈ s, (F p.1).Reach (c p.1) p.2 := by
  refine Path.invariant (P := fun s => ∀ p ∈ s, (F p.1).Reach (c p.1) p.2) h
    (fun p hp => absurd hp List.not_mem_nil) ?_
  intro s a t hc ih ht p hp
  cases a with
  | inl d =>
    simp only [family, Option.some.injEq] at ht
    subst ht
    rcases List.mem_append.mp hp with hp | hp
    · exact ih p hp
    · rw [List.mem_singleton.mp hp]; exact Reach.init
  | inr m =>
    obtain ⟨i, a⟩ := m
    simp only [family] at ht
    obtain ⟨q, hq, ht⟩ := Option.bind_eq_some_iff.mp ht
    obtain ⟨u, hu, rfl⟩ := Option.map_eq_some_iff.mp ht
    rcases List.mem_or_eq_of_mem_set hp with hp | rfl
    · exact ih p hp
    · exact (ih q (List.mem_of_getElem? hq)).snoc (hc q hq) hu

/-- A machine reachable on its own is the member of a reachable family. -/
theorem family_of_member {F : D → Machine σ α} {c : D → σ → α → Prop} {d : D} {s : σ}
    (h : (F d).Reach (c d) s) : (family F).Reach (familyStep c) [(d, s)] := by
  have h0 : (family F).Reach (familyStep c) [(d, (F d).init)] :=
    Reach.init.snoc (a := .inl d) trivial rfl
  refine Path.invariant (P := fun s => (family F).Reach (familyStep c) [(d, s)]) h h0 ?_
  intro s a t hc ih ht
  refine ih.snoc (a := .inr (0, a)) ?_ ?_
  · intro p hp
    obtain rfl : (d, s) = p := by simpa using hp
    exact hc
  · simp [family, ht]

end Machine

end Theory
