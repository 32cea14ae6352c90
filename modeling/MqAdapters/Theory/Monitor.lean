import Mathlib.Data.List.Nodup
import MqAdapters.Theory.Crew
import MqAdapters.Theory.Lists

/-!
# Objects behind a lock

An operation on an object is a `Region`: accesses to the object, each of which sees it and
may change it.  In `monitor` any number of callers each run such a region between acquiring
and releasing one lock.  Their accesses interleave in any order that the lock lets them;
nothing else keeps them apart.  In `atomic` a call takes effect in one step.

* `exclusive_step`: only the owner of the lock is inside.
* `atomic_of_monitor`: what the callers of `monitor` see, those of `atomic` see in some run,
  in which a call takes effect when it has acquired the lock.
* `effect_of_returned`: a call that returned took effect once, between its call and its
  return, with the result that it gives alone after those that took effect before it.
* `exists_counted`: these are some of the calls made before it returned, and all that
  returned before it was made.
-/

namespace Theory

/-- The body of a critical section. -/
inductive Region (σ ρ : Type)
  | ret (r : ρ)
  /-- one access to the object -/
  | access (change : σ → σ) (next : σ → Region σ ρ)

/-- The object and the result, when nothing comes between. -/
def Region.run {σ ρ : Type} : Region σ ρ → σ → σ × ρ
  | .ret r, x => (x, r)
  | .access change next, x => (next x).run (change x)

/-- What is seen of the calls, and which of them takes effect. -/
inductive Monitor.Entry (Op ρ : Type)
  | called (op : Op)
  | took (i : Nat) (op : Op)
  | returned (i : Nat) (r : ρ)
  deriving DecidableEq

/-! ## Calls that take effect at once -/

/-- Where a call of the atomic object stands. -/
inductive Standing (ρ : Type)
  | pending
  | effected (r : ρ)
  | returned (r : ρ)

/-- An object whose operations take one step. -/
structure Atomic (Op σ ρ : Type) where
  object : σ
  calls : List (Op × Standing ρ)

inductive Atomic.Action (Op : Type)
  | call (op : Op)
  | act (i : Nat)
  | ret (i : Nat)

namespace Atomic

variable {Op σ ρ : Type} (apply : Op → σ → σ × ρ)

def step (s : Atomic Op σ ρ) : Action Op → Option (Atomic Op σ ρ)
  | .call op => some { s with calls := s.calls ++ [(op, .pending)] }
  | .act i =>
    match s.calls[i]? with
    | some (op, .pending) =>
      some ⟨(apply op s.object).1, s.calls.set i (op, .effected (apply op s.object).2)⟩
    | _ => none
  | .ret i =>
    match s.calls[i]? with
    | some (op, .effected r) => some { s with calls := s.calls.set i (op, .returned r) }
    | _ => none

/-- What is seen of a step. -/
def said (s : Atomic Op σ ρ) : Action Op → Option (Monitor.Entry Op ρ)
  | .call op => some (.called op)
  | .act i => s.calls[i]?.map fun c => .took i c.1
  | .ret i =>
    match s.calls[i]? with
    | some (_, .effected r) => some (.returned i r)
    | _ => none

def machine (x : σ) : Machine (Atomic Op σ ρ) (Action Op) where
  init := ⟨x, []⟩
  step := step apply

end Atomic

/-! ## What a log says -/

namespace Monitor

variable {Op σ ρ : Type}

/-- The calls, by their numbers. -/
def calledOps (log : List (Entry Op ρ)) : List Op :=
  log.filterMap fun
    | .called op => some op
    | _ => none

/-- The calls that took effect, in that order. -/
def takenOps (log : List (Entry Op ρ)) : List (Nat × Op) :=
  log.filterMap fun
    | .took i op => some (i, op)
    | _ => none

@[simp] theorem calledOps_append (p q : List (Entry Op ρ)) :
    calledOps (p ++ q) = calledOps p ++ calledOps q :=
  List.filterMap_append

@[simp] theorem takenOps_append (p q : List (Entry Op ρ)) :
    takenOps (p ++ q) = takenOps p ++ takenOps q :=
  List.filterMap_append

theorem mem_takenOps {log : List (Entry Op ρ)} {i : Nat} {op : Op} :
    (i, op) ∈ takenOps log ↔ .took i op ∈ log := by
  rw [takenOps, List.mem_filterMap]
  constructor
  · rintro ⟨e, he, heq⟩
    cases e <;> cases heq
    exact he
  · intro h
    exact ⟨_, h, rfl⟩

theorem getElem?_calledOps {p q : List (Entry Op ρ)} {i : Nat} {op : Op}
    (h : (calledOps p)[i]? = some op) : (calledOps (p ++ q))[i]? = some op := by
  rw [calledOps_append, List.getElem?_append_left (List.getElem?_eq_some_iff.mp h).1, h]

theorem getElem?_calledOps_length (p q : List (Entry Op ρ)) (op : Op) :
    (calledOps (p ++ .called op :: q))[(calledOps p).length]? = some op := by
  rw [calledOps_append, List.getElem?_append_right (Nat.le_refl _), Nat.sub_self]
  rfl

/-- The operations one after another. -/
def replay (apply : Op → σ → σ × ρ) (x : σ) (ops : List (Nat × Op)) : σ :=
  ops.foldl (fun x o => (apply o.2 x).1) x

theorem replay_concat (apply : Op → σ → σ × ρ) (x : σ) (ops : List (Nat × Op)) (o : Nat × Op) :
    replay apply x (ops ++ [o]) = (apply o.2 (replay apply x ops)).1 := by
  rw [replay, List.foldl_append]
  rfl

/-- Call `i` took effect in the log, with result `r`. -/
def Took (apply : Op → σ → σ × ρ) (x : σ) (log : List (Entry Op ρ)) (i : Nat) (op : Op)
    (r : ρ) : Prop :=
  ∃ p q, log = p ++ .took i op :: q ∧ (calledOps p)[i]? = some op ∧
    r = (apply op (replay apply x (takenOps p))).2

theorem Took.append {apply : Op → σ → σ × ρ} {x : σ} {log : List (Entry Op ρ)} {i : Nat} {op : Op}
    {r : ρ} (h : Took apply x log i op r) (rest : List (Entry Op ρ)) :
    Took apply x (log ++ rest) i op r := by
  obtain ⟨p, q, rfl, hcalled, hr⟩ := h
  exact ⟨p, q ++ rest, by simp, hcalled, hr⟩

end Monitor

namespace Atomic

open Monitor

variable {Op σ ρ : Type} {apply : Op → σ → σ × ρ} {x : σ}

/-- What the log says of the state. -/
structure Recorded (apply : Op → σ → σ × ρ) (x : σ) (s : Atomic Op σ ρ)
    (log : List (Entry Op ρ)) : Prop where
  object : s.object = replay apply x (takenOps log)
  called : s.calls.map Prod.fst = calledOps log
  pending : ∀ i op, s.calls[i]? = some (op, .pending) → i ∉ (takenOps log).map Prod.fst
  effected : ∀ i op r, s.calls[i]? = some (op, .effected r) → Took apply x log i op r
  nodup : ((takenOps log).map Prod.fst).Nodup
  taken : ∀ p i op q, log = p ++ .took i op :: q → (calledOps p)[i]? = some op
  returned : ∀ p i r q, log = p ++ .returned i r :: q → ∃ op, Took apply x p i op r

variable {s t : Atomic Op σ ρ} {log : List (Entry Op ρ)} {i : Nat} {op : Op} {r : ρ}

/-- What took effect was called. -/
theorem Recorded.lt (h : Recorded apply x s log) (hi : i ∈ (takenOps log).map Prod.fst) :
    i < s.calls.length := by
  obtain ⟨⟨j, op⟩, hj, rfl⟩ := List.mem_map.mp hi
  obtain ⟨p, q, rfl⟩ := List.append_of_mem (mem_takenOps.mp hj)
  have hlt := (List.getElem?_eq_some_iff.mp (h.taken p j op q rfl)).1
  rw [← List.length_map Prod.fst, h.called, calledOps_append, List.length_append]
  omega

theorem step_cases {a : Action Op} (ht : s.step apply a = some t) :
    (∃ op, a = .call op ∧ t = { s with calls := s.calls ++ [(op, .pending)] }) ∨
      (∃ i op, a = .act i ∧ s.calls[i]? = some (op, .pending) ∧
        t = ⟨(apply op s.object).1, s.calls.set i (op, .effected (apply op s.object).2)⟩) ∨
      (∃ i op r, a = .ret i ∧ s.calls[i]? = some (op, .effected r) ∧
        t = { s with calls := s.calls.set i (op, .returned r) }) := by
  cases a with
  | call op => exact .inl ⟨op, rfl, (Option.some.inj ht).symm⟩
  | act i =>
    simp only [step] at ht
    split at ht <;> cases ht
    next op hi => exact .inr (.inl ⟨i, op, rfl, hi, rfl⟩)
  | ret i =>
    simp only [step] at ht
    split at ht <;> cases ht
    next op r hi => exact .inr (.inr ⟨i, op, r, rfl, hi, rfl⟩)

theorem map_fst_set {X : Type} {calls : List (Op × X)} {v w : X} (hi : calls[i]? = some (op, v)) :
    (calls.set i (op, w)).map Prod.fst = calls.map Prod.fst := by
  have hop : (calls.map Prod.fst)[i]? = some op := by rw [List.getElem?_map, hi]; rfl
  obtain ⟨hlt, hop⟩ := List.getElem?_eq_some_iff.mp hop
  rw [List.map_set]
  exact (congrArg _ hop.symm).trans (List.set_getElem_self hlt)

theorem Recorded.call (h : Recorded apply x s log) (op : Op) :
    Recorded apply x { s with calls := s.calls ++ [(op, .pending)] } (log ++ [.called op]) := by
  have htaken : takenOps (log ++ [.called op]) = takenOps log := by simp [takenOps]
  refine ⟨by rw [htaken]; exact h.object, ?_, ?_, ?_, by rw [htaken]; exact h.nodup, ?_, ?_⟩
  · rw [List.map_append, h.called, calledOps_append]
    rfl
  · intro i op' hi
    rw [htaken]
    rcases of_getElem?_concat hi with hi | ⟨rfl, -⟩
    · exact h.pending i op' hi
    · intro hmem
      exact absurd (h.lt hmem) (Nat.lt_irrefl _)
  · intro i op' r hi
    rcases of_getElem?_concat hi with hi | ⟨-, hnew⟩
    · exact (h.effected i op' r hi).append _
    · cases hnew
  · intro p i op' q hp
    rcases split_concat hp with ⟨-, heq⟩ | ⟨q', hq'⟩
    · cases heq
    · exact h.taken p i op' q' hq'
  · intro p i r q hp
    rcases split_concat hp with ⟨-, heq⟩ | ⟨q', hq'⟩
    · cases heq
    · exact h.returned p i r q' hq'

/-- A call takes effect. -/
theorem Recorded.act (h : Recorded apply x s log) (hi : s.calls[i]? = some (op, .pending)) :
    Recorded apply x
      ⟨(apply op s.object).1, s.calls.set i (op, .effected (apply op s.object).2)⟩
      (log ++ [.took i op]) := by
  have hthis : (calledOps log)[i]? = some op := by
    rw [← h.called, List.getElem?_map, hi]
    rfl
  have htaken : takenOps (log ++ [.took i op]) = takenOps log ++ [(i, op)] := by simp [takenOps]
  have hcalled : calledOps (log ++ [.took i op]) = calledOps log := by simp [calledOps]
  have hmem : ∀ j, j ∈ (takenOps (log ++ [.took i op])).map Prod.fst ↔
      j ∈ (takenOps log).map Prod.fst ∨ j = i := by
    intro j
    rw [htaken, List.map_append, List.mem_append, List.map_singleton, List.mem_singleton]
  refine ⟨?_, ?_, ?_, ?_, ?_, ?_, ?_⟩
  · rw [htaken, replay_concat, ← h.object]
  · rw [hcalled, ← h.called]
    exact map_fst_set hi
  · intro j op' hj
    rcases of_getElem?_set hj with ⟨-, heq⟩ | ⟨hne, hj⟩
    · cases heq
    · rw [hmem, not_or]
      exact ⟨h.pending j op' hj, Ne.symm hne⟩
  · intro j op' r hj
    rcases of_getElem?_set hj with ⟨rfl, heq⟩ | ⟨-, hj⟩
    · cases heq
      exact ⟨log, [], rfl, hthis, by rw [← h.object]⟩
    · exact (h.effected j op' r hj).append _
  · rw [htaken, List.map_append, List.map_singleton]
    exact List.Nodup.append h.nodup (List.nodup_singleton _)
      (List.disjoint_singleton.mpr (h.pending i op hi))
  · intro p j op' q hp
    rcases split_concat hp with ⟨rfl, heq⟩ | ⟨q', hq'⟩
    · cases heq
      exact hthis
    · exact h.taken p j op' q' hq'
  · intro p j r q hp
    rcases split_concat hp with ⟨-, heq⟩ | ⟨q', hq'⟩
    · cases heq
    · exact h.returned p j r q' hq'

theorem Recorded.ret (h : Recorded apply x s log) (hi : s.calls[i]? = some (op, .effected r)) :
    Recorded apply x { s with calls := s.calls.set i (op, .returned r) }
      (log ++ [.returned i r]) := by
  have htaken : takenOps (log ++ [.returned i r]) = takenOps log := by simp [takenOps]
  have hcalled : calledOps (log ++ [.returned i r]) = calledOps log := by simp [calledOps]
  refine ⟨by rw [htaken]; exact h.object, ?_, ?_, ?_, by rw [htaken]; exact h.nodup, ?_, ?_⟩
  · rw [hcalled, ← h.called]
    exact map_fst_set hi
  · intro j op' hj
    rw [htaken]
    rcases of_getElem?_set hj with ⟨-, heq⟩ | ⟨-, hj⟩
    · cases heq
    · exact h.pending j op' hj
  · intro j op' r' hj
    rcases of_getElem?_set hj with ⟨-, heq⟩ | ⟨-, hj⟩
    · cases heq
    · exact (h.effected j op' r' hj).append _
  · intro p j op' q hp
    rcases split_concat hp with ⟨-, heq⟩ | ⟨q', hq'⟩
    · cases heq
    · exact h.taken p j op' q' hq'
  · intro p j r' q hp
    rcases split_concat hp with ⟨rfl, heq⟩ | ⟨q', hq'⟩
    · cases heq
      exact ⟨op, h.effected i op r hi⟩
    · exact h.returned p j r' q' hq'

theorem recorded_step {a : Action Op} (h : Recorded apply x s log) (ht : s.step apply a = some t) :
    Recorded apply x t (log ++ (s.said a).toList) := by
  rcases step_cases ht with ⟨op, rfl, rfl⟩ | ⟨i, op, rfl, hi, rfl⟩ | ⟨i, op, r, rfl, hi, rfl⟩
  · exact h.call op
  · simpa [said, hi] using h.act hi
  · simpa [said, hi] using h.ret hi

theorem recorded_of_reach {p : Atomic Op σ ρ × List (Entry Op ρ)}
    (h : ((machine apply x).logged said).Reach Machine.anyStep p) : Recorded apply x p.1 p.2 := by
  refine Machine.Path.invariant
    (P := fun p : Atomic Op σ ρ × List (Entry Op ρ) => Recorded apply x p.1 p.2) h ?_ ?_
  · refine ⟨rfl, rfl, ?_, ?_, List.nodup_nil, ?_, ?_⟩
    · intro i op hi
      cases hi
    · intro i op r hi
      cases hi
    · intro p i op q hp
      cases p <;> cases hp
    · intro p i r q hp
      cases p <;> cases hp
  · intro p a q _ hp hq
    obtain ⟨ht, hlog⟩ := Machine.logged_step hq
    rw [hlog]
    exact recorded_step hp ht

end Atomic

/-! ## Calls that take a lock -/

/-- Where a call stands. -/
inductive Stage (σ ρ : Type)
  | waiting
  | inside (rest : Region σ ρ)
  | released (r : ρ)
  | returned (r : ρ)

/-- Where the call stands when what is inside is carried out at once. -/
def Stage.standing {σ ρ : Type} (y : σ) : Stage σ ρ → Standing ρ
  | .waiting => .pending
  | .inside rest => .effected (rest.run y).2
  | .released r => .effected r
  | .returned r => .returned r

/-- The object when what is inside is carried out at once. -/
def Stage.settle {σ ρ : Type} (y : σ) : Stage σ ρ → σ
  | .inside rest => (rest.run y).1
  | _ => y

/-- The object, its lock and the calls. -/
structure Monitor (Op σ ρ : Type) where
  object : σ
  owner : Option Nat
  calls : List (Op × Stage σ ρ)

namespace Monitor

variable {Op σ ρ : Type}

inductive Action (Op : Type)
  | call (op : Op)
  | acquire (i : Nat)
  | access (i : Nat)
  | release (i : Nat)
  | ret (i : Nat)

variable (code : Op → Region σ ρ)

def step (s : Monitor Op σ ρ) : Action Op → Option (Monitor Op σ ρ)
  | .call op => some { s with calls := s.calls ++ [(op, .waiting)] }
  | .acquire i =>
    match s.owner, s.calls[i]? with
    | none, some (op, .waiting) =>
      some { s with owner := some i, calls := s.calls.set i (op, .inside (code op)) }
    | _, _ => none
  | .access i =>
    match s.calls[i]? with
    | some (op, .inside (.access change next)) =>
      some { s with
        object := change s.object, calls := s.calls.set i (op, .inside (next s.object)) }
    | _ => none
  | .release i =>
    match s.calls[i]? with
    | some (op, .inside (.ret r)) =>
      some { s with owner := none, calls := s.calls.set i (op, .released r) }
    | _ => none
  | .ret i =>
    match s.calls[i]? with
    | some (op, .released r) => some { s with calls := s.calls.set i (op, .returned r) }
    | _ => none

/-- What is seen of a step. -/
def said (s : Monitor Op σ ρ) : Action Op → Option (Entry Op ρ)
  | .call op => some (.called op)
  | .acquire i => s.calls[i]?.map fun c => .took i c.1
  | .ret i =>
    match s.calls[i]? with
    | some (_, .released r) => some (.returned i r)
    | _ => none
  | _ => none

def machine (x : σ) : Machine (Monitor Op σ ρ) (Action Op) where
  init := ⟨x, none, []⟩
  step := step code

variable {code} {x : σ} {s t : Monitor Op σ ρ}

/-- Which steps there are. -/
theorem step_cases {a : Action Op} (ht : s.step code a = some t) :
    (∃ op, a = .call op ∧ t = { s with calls := s.calls ++ [(op, .waiting)] }) ∨
      (∃ i op, a = .acquire i ∧ s.owner = none ∧ s.calls[i]? = some (op, .waiting) ∧
        t = { s with owner := some i, calls := s.calls.set i (op, .inside (code op)) }) ∨
      (∃ i op change next, a = .access i ∧
        s.calls[i]? = some (op, .inside (.access change next)) ∧
        t = { s with
          object := change s.object, calls := s.calls.set i (op, .inside (next s.object)) }) ∨
      (∃ i op r, a = .release i ∧ s.calls[i]? = some (op, .inside (.ret r)) ∧
        t = { s with owner := none, calls := s.calls.set i (op, .released r) }) ∨
      (∃ i op r, a = .ret i ∧ s.calls[i]? = some (op, .released r) ∧
        t = { s with calls := s.calls.set i (op, .returned r) }) := by
  cases a with
  | call op => exact .inl ⟨op, rfl, (Option.some.inj ht).symm⟩
  | acquire i =>
    simp only [step] at ht
    split at ht <;> cases ht
    next op howner hi => exact .inr (.inl ⟨i, op, rfl, howner, hi, rfl⟩)
  | access i =>
    simp only [step] at ht
    split at ht <;> cases ht
    next op change next hi => exact .inr (.inr (.inl ⟨i, op, change, next, rfl, hi, rfl⟩))
  | release i =>
    simp only [step] at ht
    split at ht <;> cases ht
    next op r hi => exact .inr (.inr (.inr (.inl ⟨i, op, r, rfl, hi, rfl⟩)))
  | ret i =>
    simp only [step] at ht
    split at ht <;> cases ht
    next op r hi => exact .inr (.inr (.inr (.inr ⟨i, op, r, rfl, hi, rfl⟩)))

/-! ## Mutual exclusion -/

/-- The lock has an owner while a call is inside, and that is the call. -/
def Exclusive (s : Monitor Op σ ρ) : Prop :=
  ∀ i, s.owner = some i ↔ ∃ op rest, s.calls[i]? = some (op, .inside rest)

/-- A call that changes from outside to outside. -/
theorem exclusive_set {i : Nat} {op : Op} {u v : Stage σ ρ} (hi : s.calls[i]? = some (op, u))
    (hu : ∀ rest, u ≠ .inside rest) (hv : ∀ rest, v ≠ .inside rest) (h : s.Exclusive) :
    Exclusive { s with calls := s.calls.set i (op, v) } := by
  intro j
  refine (h j).trans ?_
  by_cases hij : i = j
  · subst hij
    constructor
    · rintro ⟨op', rest, hin⟩
      rw [hi] at hin
      cases hin
      exact absurd rfl (hu rest)
    · rintro ⟨op', rest, hin⟩
      rcases of_getElem?_set hin with ⟨-, heq⟩ | ⟨hne, -⟩
      · cases heq
        exact absurd rfl (hv rest)
      · exact absurd rfl hne
  · simp only [List.getElem?_set_ne hij]

/-- **Only the owner of the lock is inside.** -/
theorem exclusive_step {a : Action Op} (h : s.Exclusive) (ht : s.step code a = some t) :
    t.Exclusive := by
  rcases step_cases ht with ⟨op, -, rfl⟩ | ⟨i, op, -, howner, hi, rfl⟩ |
    ⟨i, op, change, next, -, hi, rfl⟩ | ⟨i, op, r, -, hi, rfl⟩ | ⟨i, op, r, -, hi, rfl⟩
  · intro j
    refine (h j).trans ?_
    constructor
    · rintro ⟨op', rest, hin⟩
      exact ⟨op', rest, getElem?_concat_of_some hin⟩
    · rintro ⟨op', rest, hin⟩
      rcases of_getElem?_concat hin with hin | ⟨-, hnew⟩
      · exact ⟨op', rest, hin⟩
      · cases hnew
  · intro j
    constructor
    · intro hj
      obtain rfl : i = j := Option.some.inj hj
      exact ⟨op, code op, List.getElem?_set_self (List.getElem?_eq_some_iff.mp hi).1⟩
    · rintro ⟨op', rest, hin⟩
      rcases of_getElem?_set hin with ⟨rfl, -⟩ | ⟨-, hin⟩
      · rfl
      · have hj := (h j).mpr ⟨op', rest, hin⟩
        rw [howner] at hj
        cases hj
  · have hown := (h i).mpr ⟨op, _, hi⟩
    intro j
    constructor
    · intro hj
      obtain rfl : i = j := Option.some.inj (hown.symm.trans hj)
      exact ⟨op, _, List.getElem?_set_self (List.getElem?_eq_some_iff.mp hi).1⟩
    · rintro ⟨op', rest, hin⟩
      rcases of_getElem?_set hin with ⟨rfl, -⟩ | ⟨-, hin⟩
      · exact hown
      · exact (h j).mpr ⟨op', rest, hin⟩
  · have hown := (h i).mpr ⟨op, _, hi⟩
    intro j
    constructor
    · intro hj
      cases hj
    · rintro ⟨op', rest, hin⟩
      rcases of_getElem?_set hin with ⟨-, heq⟩ | ⟨hne, hin⟩
      · cases heq
      · exact absurd (Option.some.inj (hown.symm.trans ((h j).mpr ⟨op', rest, hin⟩))) hne
  · exact exclusive_set hi (by simp) (by simp) h

theorem exclusive_init : (⟨x, none, []⟩ : Monitor Op σ ρ).Exclusive := by
  intro i
  constructor
  · intro hi
    cases hi
  · rintro ⟨op, rest, hin⟩
    cases hin

/-! ## The calls as if they took effect at once -/

/-- The object once its owner has left. -/
def settled (s : Monitor Op σ ρ) : σ :=
  match s.owner.bind fun i => s.calls[i]? with
  | some (_, stage) => stage.settle s.object
  | none => s.object

/-- The calls and the object, with what is inside carried out. -/
def abstract (s : Monitor Op σ ρ) : Atomic Op σ ρ :=
  ⟨s.settled, s.calls.map fun c => (c.1, c.2.standing s.object)⟩

/-- The step of the atomic object. -/
def effective : Action Op → Option (Atomic.Action Op)
  | .call op => some (.call op)
  | .acquire i => some (.act i)
  | .ret i => some (.ret i)
  | _ => none

theorem settled_of_free (h : s.owner = none) : s.settled = s.object := by
  rw [settled, h]
  rfl

theorem settled_of_inside {i : Nat} {op : Op} {rest : Region σ ρ} (h : s.owner = some i)
    (hi : s.calls[i]? = some (op, .inside rest)) : s.settled = (rest.run s.object).1 := by
  rw [settled, h, Option.bind_some, hi]
  rfl

/-- What leaves the object, the owner and the call of the owner alone. -/
theorem settled_congr {u : Monitor Op σ ρ} (hs : s.Exclusive) (hobject : u.object = s.object)
    (howner : u.owner = s.owner)
    (hcalls : ∀ (i : Nat) (op : Op) (rest : Region σ ρ), s.calls[i]? = some (op, .inside rest) →
      u.calls[i]? = some (op, .inside rest)) : u.settled = s.settled := by
  cases hown : s.owner with
  | none => rw [settled_of_free hown, settled_of_free (howner.trans hown), hobject]
  | some i =>
    obtain ⟨op, rest, hi⟩ := (hs i).mp hown
    rw [settled_of_inside hown hi, settled_of_inside (howner.trans hown) (hcalls i op rest hi),
      hobject]

section

variable {apply : Op → σ → σ × ρ}

/-- A call goes on inside, or leaves. -/
theorem abstract_inside {i : Nat} {op : Op} {rest : Region σ ρ} {v : Stage σ ρ} {y : σ}
    (hs : s.Exclusive) (hi : s.calls[i]? = some (op, .inside rest))
    (hv : v.standing y = .effected (rest.run s.object).2) :
    (s.calls.set i (op, v)).map (fun c => (c.1, c.2.standing y)) =
      s.calls.map fun c => (c.1, c.2.standing s.object) := by
  refine List.ext_getElem? fun j => ?_
  rw [List.getElem?_map, List.getElem?_map]
  by_cases hij : i = j
  · subst hij
    rw [List.getElem?_set_self (List.getElem?_eq_some_iff.mp hi).1, hi, Option.map_some,
      Option.map_some, hv]
    rfl
  · rw [List.getElem?_set_ne hij]
    cases hj : s.calls[j]? with
    | none => rfl
    | some c =>
      obtain ⟨op', stage⟩ := c
      cases stage with
      | inside rest' =>
        -- two calls inside
        have hown := (hs i).mpr ⟨op, rest, hi⟩
        have hown' := (hs j).mpr ⟨op', rest', hj⟩
        exact absurd (Option.some.inj (hown.symm.trans hown')) hij
      | _ => rfl

/-- **A step is one of the atomic object, or none.** -/
theorem goes_step {a : Action Op} (hcode : ∀ op y, (code op).run y = apply op y) (hs : s.Exclusive)
    (ht : s.step code a = some t) :
    (Atomic.machine apply x).Goes s.abstract t.abstract (effective a) := by
  rcases step_cases ht with ⟨op, rfl, rfl⟩ | ⟨i, op, rfl, howner, hi, rfl⟩ |
    ⟨i, op, change, next, rfl, hi, rfl⟩ | ⟨i, op, r, rfl, hi, rfl⟩ | ⟨i, op, r, rfl, hi, rfl⟩
  · refine congrArg some (Eq.symm ?_)
    have hsettled := settled_congr (u := { s with calls := s.calls ++ [(op, .waiting)] }) hs
      rfl rfl fun j op' rest hj => getElem?_concat_of_some hj
    rw [abstract, abstract, List.map_append, hsettled]
    rfl
  · have hlt := (List.getElem?_eq_some_iff.mp hi).1
    have hpending : s.abstract.calls[i]? = some (op, .pending) := by
      rw [abstract, List.getElem?_map, hi]
      rfl
    rw [effective, Machine.goes_some]
    simp only [Atomic.machine, Atomic.step, hpending]
    refine congrArg some (Eq.symm ?_)
    rw [abstract, settled_of_inside rfl (List.getElem?_set_self hlt), abstract,
      settled_of_free howner, List.map_set]
    simp only [Stage.standing, hcode]
  · have hown := (hs i).mpr ⟨op, _, hi⟩
    have hnew := settled_of_inside (s := { s with
      object := change s.object, calls := s.calls.set i (op, .inside (next s.object)) }) hown
      (List.getElem?_set_self (List.getElem?_eq_some_iff.mp hi).1)
    refine (Machine.goes_none (N := Atomic.machine apply x)).mpr ?_
    rw [abstract, abstract, hnew, settled_of_inside hown hi, abstract_inside hs hi rfl]
    rfl
  · have hown := (hs i).mpr ⟨op, _, hi⟩
    refine (Machine.goes_none (N := Atomic.machine apply x)).mpr ?_
    rw [abstract, abstract, settled_of_inside hown hi, settled_of_free rfl,
      abstract_inside hs hi rfl]
    rfl
  · have heffected : s.abstract.calls[i]? = some (op, .effected r) := by
      rw [abstract, List.getElem?_map, hi]
      rfl
    rw [effective, Machine.goes_some]
    simp only [Atomic.machine, Atomic.step, heffected]
    refine congrArg some (Eq.symm ?_)
    have hsettled := settled_congr (u := { s with calls := s.calls.set i (op, .returned r) }) hs
      rfl rfl fun j op' rest hj => by
        have hne : i ≠ j := by
          rintro rfl
          rw [hi] at hj
          cases hj
        rw [List.getElem?_set_ne hne, hj]
    rw [abstract, hsettled, List.map_set]
    rfl

theorem said_step {a : Action Op} (ht : s.step code a = some t) :
    s.said a = (effective a).bind s.abstract.said := by
  rcases step_cases ht with ⟨op, rfl, -⟩ | ⟨i, op, rfl, -, hi, -⟩ |
    ⟨i, op, change, next, rfl, -, -⟩ | ⟨i, op, r, rfl, -, -⟩ | ⟨i, op, r, rfl, hi, -⟩
  · rfl
  · simp [said, effective, Atomic.said, abstract, hi]
  · rfl
  · rfl
  · simp [said, effective, Atomic.said, abstract, hi, Stage.standing]

variable {c : Monitor Op σ ρ → Action Op → Prop} {log : List (Entry Op ρ)}

/-- **What is seen of the calls could be seen if each took effect at once.** -/
theorem atomic_of_monitor (hcode : ∀ op y, (code op).run y = apply op y)
    (h : ((machine code x).logged said).Reach (fun p a => c p.1 a) (s, log)) :
    ((Atomic.machine apply x).logged Atomic.said).Reach Machine.anyStep (s.abstract, log) :=
  Machine.Reach.simulate_logged (f := abstract) (P := Exclusive) (p := (s, log))
    exclusive_init rfl (fun _ _ _ hs ht => exclusive_step hs ht)
    (fun _ _ _ hs ht => goes_step hcode hs ht) (fun _ _ _ _ ht => said_step ht) h

/-- **A call that returned took effect once**, between its call and its return, with the
result that it gives alone after those that took effect before it. -/
theorem effect_of_returned (hcode : ∀ op y, (code op).run y = apply op y)
    (h : ((machine code x).logged said).Reach (fun p a => c p.1 a) (s, log)) :
    ((takenOps log).map Prod.fst).Nodup ∧
      ∀ p i r q, log = p ++ .returned i r :: q → ∃ op, Took apply x p i op r :=
  let hrecorded := Atomic.recorded_of_reach (atomic_of_monitor hcode h)
  ⟨hrecorded.nodup, hrecorded.returned⟩

/-- What takes effect was called before. -/
theorem called_of_took (hcode : ∀ op y, (code op).run y = apply op y)
    (h : ((machine code x).logged said).Reach (fun p a => c p.1 a) (s, log)) {i : Nat} {op : Op}
    {p q : List (Entry Op ρ)} (hlog : log = p ++ .took i op :: q) : (calledOps p)[i]? = some op :=
  (Atomic.recorded_of_reach (atomic_of_monitor hcode h)).taken p i op q hlog

/-- **A call sees those that returned before it, and none that came after it.**  Its result is
what it gives alone after some of the others: all that returned before it was called are
among them, and all of them were called before it returned. -/
theorem exists_counted (hcode : ∀ op y, (code op).run y = apply op y)
    (h : ((machine code x).logged said).Reach (fun p a => c p.1 a) (s, log))
    {a b q : List (Entry Op ρ)} {op : Op} {r : ρ}
    (hlog : log = (a ++ .called op :: b) ++ .returned (calledOps a).length r :: q) :
    ∃ counted : List (Nat × Op), (counted.map Prod.fst).Nodup ∧
      (∀ i r', .returned i r' ∈ a → i ∈ counted.map Prod.fst) ∧
      (∀ o ∈ counted, (calledOps (a ++ .called op :: b))[o.1]? = some o.2) ∧
      r = (apply op (replay apply x counted)).2 := by
  obtain ⟨hnodup, heffect⟩ := effect_of_returned hcode h
  obtain ⟨op', before, after, hsplit, hcalled, hr⟩ := heffect _ _ _ _ hlog
  have hop : op = op' := by
    have hthis := getElem?_calledOps_length a b op
    rw [hsplit, getElem?_calledOps hcalled] at hthis
    exact (Option.some.inj hthis).symm
  subst hop
  -- the call takes effect after it was made
  obtain ⟨b', rfl⟩ : ∃ b', before = a ++ b' := by
    rcases List.append_eq_append_iff.mp hsplit with ⟨b', hb, -⟩ | ⟨b', ha, -⟩
    · exact ⟨b', hb⟩
    · have hlt := (List.getElem?_eq_some_iff.mp hcalled).1
      rw [ha, calledOps_append, List.length_append] at hlt
      omega
  refine ⟨takenOps (a ++ b'), ?_, ?_, ?_, hr⟩
  · rw [hlog, hsplit, List.append_assoc, takenOps_append, List.map_append] at hnodup
    exact (List.nodup_append.mp hnodup).1
  · intro i r' hi
    obtain ⟨u, v, rfl⟩ := List.append_of_mem hi
    obtain ⟨op', u', v', rfl, -, -⟩ := heffect u i r' (v ++ .called op :: b ++
      .returned (calledOps (u ++ .returned i r' :: v)).length r :: q) (by rw [hlog]; simp)
    exact List.mem_map.mpr ⟨(i, op'), mem_takenOps.mpr (by simp), rfl⟩
  · rintro ⟨i, op'⟩ hi
    obtain ⟨u, v, huv⟩ := List.append_of_mem (mem_takenOps.mp hi)
    have hthis : (calledOps u)[i]? = some op' := called_of_took hcode h
      (q := v ++ .took (calledOps a).length op :: after ++ .returned (calledOps a).length r :: q)
      (by rw [hlog, hsplit, huv]; simp)
    rw [hsplit, huv, List.append_assoc]
    exact getElem?_calledOps hthis

end

end Monitor

end Theory
