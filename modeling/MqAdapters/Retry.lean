import MqAdapters.RetryPolicy
import MqAdapters.Theory.Loop
import Mathlib.Order.Bounds.Basic

/-!
# `sync_retry` and `async_retry`

The two retry loops, with everything they call as arguments: how each attempt
of `func` ends, what `stop_predicate` answers before each attempt, and the
delays.

* `syncRetry_of_last`, `syncRetry_of_no_last`: what the loop does, by the last
  attempt it makes, if there is one.
* `asyncRetry_eq_syncRetry`: without a stop predicate the two loops are one.
* `retry_attempts_and_sleeps`: both, with what is known of the sleeps of a policy
  without jitter.
-/

namespace MqAdapters

/-- `max_attempts is not None and attempt >= max_attempts`. -/
def RetryPolicy.exhausted (self : RetryPolicy) (attempt : Nat) : Bool :=
  self.maxAttempts.any fun n => n ≤ (attempt : Int)

/-- Attempt `k` is the last that the policy allows. -/
def RetryPolicy.Exhausts (self : RetryPolicy) (k : Nat) : Prop :=
  ∃ n, self.maxAttempts = some n ∧ max 1 n ≤ (k : Int)

instance (policy : RetryPolicy) (k : Nat) : Decidable (policy.Exhausts k) :=
  decidable_of_iff ((policy.maxAttempts.any fun n => max 1 n ≤ (k : Int)) = true)
    (by simp [RetryPolicy.Exhausts, Option.any_eq_true])

namespace Retry

open Theory

/-- How a call of `func` ends; `except Exception` catches an `exception` only. -/
inductive Outcome (α ε : Type)
  | value (a : α)
  | exception (e : ε)
  | baseException (e : ε)

namespace Outcome

variable {α ε : Type}

/-- What the loops catch. -/
def caught : Outcome α ε → Option ε
  | .exception e => some e
  | _ => none

def isValue : Outcome α ε → Bool
  | .value _ => true
  | _ => false

/-- The loops do not go on after this: a value, or an exception they do not
catch. -/
def isFinal : Outcome α ε → Bool
  | .exception _ => false
  | _ => true

end Outcome

/-- How a loop ends. -/
inductive Ending (α ε : Type)
  | returned (a : α)
  | raised (e : ε)
  | runtimeError (message : String)
  deriving DecidableEq

/-- What a loop does to the outside. -/
inductive Act
  | call (attempt : Nat)
  | sleep (delay : ℚ)
  deriving DecidableEq

namespace Act

def attempt? : Act → Option Nat
  | .call attempt => some attempt
  | .sleep _ => none

def delay? : Act → Option ℚ
  | .call _ => none
  | .sleep delay => some delay

end Act

def attempts (acts : List Act) : List Nat := acts.filterMap Act.attempt?

def sleeps (acts : List Act) : List ℚ := acts.filterMap Act.delay?

/-- The local variables of `sync_retry`. -/
structure SyncRetry (ε : Type) where
  attempt : Nat
  lastExc : Option ε

variable {α ε : Type} (policy : RetryPolicy) (delay : Int → ℚ) (func : Nat → Outcome α ε)
  (operation : String) (stopPredicate : Option (Nat → Bool))

/-- One round of the loop of `sync_retry`; `stopPredicate` by the attempt it is
asked before. -/
def syncRound (s : SyncRetry ε) : List Act × (SyncRetry ε ⊕ Ending α ε) :=
  if stopPredicate.any fun p => p s.attempt then
    match s.lastExc with
    | some e => ([], .inr (.raised e))
    | none => ([], .inr (.runtimeError s!"{operation} aborted"))
  else
    match func s.attempt with
    | .value a => ([.call s.attempt], .inr (.returned a))
    | .baseException e => ([.call s.attempt], .inr (.raised e))
    | .exception e =>
      if policy.exhausted s.attempt then ([.call s.attempt], .inr (.raised e))
      else ([.call s.attempt, .sleep (delay (s.attempt + 1))], .inl ⟨s.attempt + 1, some e⟩)

/-- At most `n` rounds of `sync_retry`. -/
def syncRetry (n : Nat) : List Act × Option (Ending α ε) :=
  rounds (syncRound policy delay func operation stopPredicate) n ⟨1, none⟩

/-- One round of the loop of `async_retry`. -/
def asyncRound (attempt : Nat) : List Act × (Nat ⊕ Ending α ε) :=
  match func attempt with
  | .value a => ([.call attempt], .inr (.returned a))
  | .baseException e => ([.call attempt], .inr (.raised e))
  | .exception e =>
    if policy.exhausted attempt then ([.call attempt], .inr (.raised e))
    else ([.call attempt, .sleep (delay (attempt + 1))], .inl (attempt + 1))

/-- At most `n` rounds of `async_retry`. -/
def asyncRetry (n : Nat) : List Act × Option (Ending α ε) :=
  rounds (asyncRound policy delay func) n 1

/-! ## What the loops are for -/

/-- The stop predicate is true before attempt `k`. -/
def StopsBefore (k : Nat) : Prop := ∃ p, stopPredicate = some p ∧ p k = true

/-- The loop makes `k` attempts: attempt `k` ends it, or no other follows.
`ends` says which outcomes end it. -/
def Last (ends : Outcome α ε → Bool) (k : Nat) : Prop :=
  IsLeast {k | (0 < k ∧ (ends (func k) = true ∨ policy.Exhausts k)) ∨
    StopsBefore stopPredicate (k + 1)} k

/-- What `k` attempts that end nothing do: each is followed by its sleep. -/
def failing (k : Nat) : List Act :=
  (List.range k).flatMap fun i => [.call (i + 1), .sleep (delay (i + 2))]

/-- What `k` attempts do, the last of which may end the loop. -/
def made (ends : Outcome α ε → Bool) : Nat → List Act
  | 0 => []
  | k + 1 =>
    if ends (func (k + 1)) = true ∨ policy.Exhausts (k + 1) then
      failing delay k ++ [.call (k + 1)]
    else failing delay (k + 1)

/-- The value or the exception of the last attempt. -/
def result : Nat → Ending α ε
  | 0 => .runtimeError s!"{operation} aborted"
  | k + 1 =>
    match func (k + 1) with
    | .value a => .returned a
    | .exception e => .raised e
    | .baseException e => .raised e

/-! ## The loops do exactly this -/

variable {policy delay func operation stopPredicate}

theorem exhausts_iff {k : Nat} (hk : 0 < k) : policy.Exhausts k ↔ policy.exhausted k = true := by
  unfold RetryPolicy.Exhausts RetryPolicy.exhausted
  rcases policy.maxAttempts with _ | n
  · simp
  · simp only [Option.some.injEq, exists_eq_left', Option.any_some, decide_eq_true_eq]
    omega

theorem stopsBefore_iff {k : Nat} :
    StopsBefore stopPredicate k ↔ (stopPredicate.any fun p => p k) = true := by
  simp [StopsBefore, Option.any_eq_true]

theorem not_isFinal_iff {o : Outcome α ε} : o.isFinal = false ↔ ∃ e, o = .exception e := by
  cases o <;> simp [Outcome.isFinal]

/-- `sync_retry` after `i` attempts that ended nothing. -/
def after (func : Nat → Outcome α ε) (i : Nat) : SyncRetry ε :=
  ⟨i + 1, if i = 0 then none else (func i).caught⟩

@[simp] theorem after_attempt (i : Nat) : (after func i).attempt = i + 1 := rfl

theorem syncRound_goes {i : Nat} (hstop : ¬ StopsBefore stopPredicate (i + 1))
    (hfinal : (func (i + 1)).isFinal = false) (hlimit : ¬ policy.Exhausts (i + 1)) :
    syncRound policy delay func operation stopPredicate (after func i) =
      ([.call (i + 1), .sleep (delay (i + 2))], .inl (after func (i + 1))) := by
  obtain ⟨e, he⟩ := not_isFinal_iff.mp hfinal
  rw [stopsBefore_iff] at hstop
  rw [exhausts_iff (by omega)] at hlimit
  rw [syncRound, after_attempt, if_neg hstop, he]
  dsimp only
  rw [if_neg hlimit]
  simp [after, he, Outcome.caught, add_assoc]

theorem syncRound_ends {i : Nat} (hstop : ¬ StopsBefore stopPredicate (i + 1))
    (h : (func (i + 1)).isFinal = true ∨ policy.Exhausts (i + 1)) :
    syncRound policy delay func operation stopPredicate (after func i) =
      ([.call (i + 1)], .inr (result func operation (i + 1))) := by
  rw [stopsBefore_iff] at hstop
  rw [exhausts_iff (by omega)] at h
  rw [syncRound, after_attempt, if_neg hstop, result]
  rcases ho : func (i + 1) with a | e | e
  · rfl
  · rw [ho] at h
    have hx : policy.exhausted (i + 1) = true := h.resolve_left (by simp [Outcome.isFinal])
    simp only [hx, if_true]
  · rfl

theorem syncRound_stops {i : Nat} (hstop : StopsBefore stopPredicate (i + 1))
    (h : 0 < i → (func i).isFinal = false) :
    syncRound policy delay func operation stopPredicate (after func i) =
      ([], .inr (result func operation i)) := by
  rw [stopsBefore_iff] at hstop
  rw [syncRound, after_attempt, if_pos hstop]
  cases i with
  | zero => rfl
  | succ i =>
    obtain ⟨e, he⟩ := not_isFinal_iff.mp (h (by omega))
    simp [after, result, he, Outcome.caught]

/-- Before the last attempt, no attempt ends the loop and nothing stops it. -/
theorem Last.goes {k i : Nat} (h : Last policy func stopPredicate Outcome.isFinal k)
    (hi : i < k) :
    ¬ StopsBefore stopPredicate (i + 1) ∧
      (0 < i → (func i).isFinal = false ∧ ¬ policy.Exhausts i) := by
  have hnot : ¬ _ := fun hmem => absurd (h.2 hmem) (Nat.not_le.mpr hi)
  rw [Set.mem_ofPred_eq, not_or] at hnot
  refine ⟨hnot.2, fun hpos => ?_⟩
  have hends := not_and.mp hnot.1 hpos
  rw [not_or] at hends
  exact ⟨by simpa using hends.1, hends.2⟩

/-- **The loop with a last attempt.** -/
theorem syncRetry_of_last {k n : Nat} (h : Last policy func stopPredicate Outcome.isFinal k)
    (hn : k < n) :
    syncRetry policy delay func operation stopPredicate n =
      (made policy delay func Outcome.isFinal k, some (result func operation k)) := by
  have hround : ∀ i, i + 1 < k → syncRound policy delay func operation stopPredicate
      (after func i) = ([.call (i + 1), .sleep (delay (i + 2))], .inl (after func (i + 1))) := by
    intro i hi
    have hnext := (h.goes hi).2 (by omega)
    exact syncRound_goes (h.goes (by omega)).1 hnext.1 hnext.2
  have hstart : (⟨1, none⟩ : SyncRetry ε) = after func 0 := rfl
  rw [syncRetry, hstart]
  cases k with
  | zero =>
    have hstop : StopsBefore stopPredicate 1 := h.1.resolve_left (by simp)
    have hround : syncRound policy delay func operation stopPredicate (after func 0) =
        ([], .inr (result func operation 0)) := syncRound_stops hstop (fun h => absurd h (by omega))
    obtain ⟨m, rfl⟩ : ∃ m, n = m + 1 := ⟨n - 1, by omega⟩
    rw [rounds_of_ends hround, made]
  | succ k =>
    have hstop := (h.goes (i := k) (by omega)).1
    rw [made]
    by_cases hends : (func (k + 1)).isFinal = true ∨ policy.Exhausts (k + 1)
    · rw [if_pos hends]
      exact rounds_eq_of_ends (by omega) (fun i hi => hround i (by omega))
        (syncRound_ends hstop hends)
    · -- the attempt failed, was slept after, and the next was not made
      have hnext : StopsBefore stopPredicate (k + 1 + 1) :=
        h.1.resolve_left fun hmem => hends hmem.2
      rw [not_or, Bool.not_eq_true] at hends
      rw [if_neg (by simp [hends])]
      have hrounds : rounds (syncRound policy delay func operation stopPredicate) n (after func 0) =
          ((List.range (k + 1)).flatMap (fun i => [.call (i + 1), .sleep (delay (i + 2))]) ++ [],
            some (result func operation (k + 1))) := rounds_eq_of_ends hn
        (fun i hi => by
          rcases Nat.lt_or_ge (i + 1) (k + 1) with hlt | hge
          · exact hround i hlt
          · obtain rfl : i = k := by omega
            exact syncRound_goes hstop hends.1 hends.2)
        (syncRound_stops hnext (fun _ => hends.1))
      rw [hrounds, List.append_nil]
      rfl

/-- As long as no attempt ends the loop, it goes on. -/
theorem syncRetry_of_goes {n : Nat}
    (h : ∀ i, i < n → ¬ StopsBefore stopPredicate (i + 1) ∧ (func (i + 1)).isFinal = false ∧
      ¬ policy.Exhausts (i + 1)) :
    syncRetry policy delay func operation stopPredicate n = (failing delay n, none) := by
  have hround : ∀ i, i < n → syncRound policy delay func operation stopPredicate
      (after func i) = ([.call (i + 1), .sleep (delay (i + 2))], .inl (after func (i + 1))) := by
    intro i hi
    obtain ⟨hstop, hfinal, hlimit⟩ := h i hi
    exact syncRound_goes hstop hfinal hlimit
  have hrounds := rounds_add n hround 0
  rw [Nat.add_zero] at hrounds
  rw [syncRetry, show (⟨1, none⟩ : SyncRetry ε) = after func 0 from rfl, hrounds]
  simp [rounds, failing]

/-- **The loop without a last attempt** goes on. -/
theorem syncRetry_of_no_last
    (h : ∀ k, ¬ Last policy func stopPredicate Outcome.isFinal k) (n : Nat) :
    syncRetry policy delay func operation stopPredicate n = (failing delay n, none) := by
  have hnone : ∀ k, ¬ ((0 < k ∧ ((func k).isFinal = true ∨ policy.Exhausts k)) ∨
      StopsBefore stopPredicate (k + 1)) := by
    intro k hk
    classical
    exact h _ ⟨Nat.find_spec ⟨k, hk⟩, fun _ hm => Nat.find_min' _ hm⟩
  refine syncRetry_of_goes fun i _ => ?_
  have hi := hnone i
  have hsucc := hnone (i + 1)
  simp only [not_or, not_and, Nat.zero_lt_succ, forall_const, Bool.not_eq_true] at hi hsucc
  exact ⟨hi.2, hsucc.1.1, hsucc.1.2⟩

/-- **Without a stop predicate the two loops are one.** -/
theorem asyncRetry_eq_syncRetry (n : Nat) :
    asyncRetry policy delay func n = syncRetry policy delay func operation none n := by
  refine rounds_simulate (f := SyncRetry.attempt) (fun s => ?_) n ⟨1, none⟩
  rw [syncRound, asyncRound]
  rcases func s.attempt with a | e | e
  · rfl
  · cases policy.exhausted s.attempt <;> simp
  · rfl

/-! ## Attempts and sleeps -/

theorem attempts_failing (k : Nat) : attempts (failing delay k) = List.range' 1 k := by
  induction k with
  | zero => rfl
  | succ k ih =>
    rw [attempts, failing] at ih ⊢
    rw [List.range_succ, List.flatMap_append, List.filterMap_append, ih, List.range'_1_concat]
    simp [Act.attempt?, add_comm]

theorem attempts_made {ends : Outcome α ε → Bool} (k : Nat) :
    attempts (made policy delay func ends k) = List.range' 1 k := by
  cases k with
  | zero => rfl
  | succ k =>
    rw [made]
    split
    · rw [attempts, List.filterMap_append, ← attempts, attempts_failing, List.range'_1_concat]
      simp [Act.attempt?, add_comm]
    · exact attempts_failing (k + 1)

/-- From any round on, the sleeps are the delays of the attempts that follow. -/
theorem sleeps_rounds (policy : RetryPolicy) (delay : Int → ℚ) (func : Nat → Outcome α ε)
    (operation : String) (stopPredicate : Option (Nat → Bool)) (n : Nat) (s : SyncRetry ε) :
    ∃ j, sleeps (rounds (syncRound policy delay func operation stopPredicate) n s).1 =
      (List.range j).map fun i : Nat => delay (s.attempt + 1 + i) := by
  induction n generalizing s with
  | zero => exact ⟨0, rfl⟩
  | succ n ih =>
    rw [rounds]
    rcases hround : syncRound policy delay func operation stopPredicate s with ⟨acts, t | r⟩
    · obtain ⟨j, hj⟩ := ih t
      have hgoes : t.attempt = s.attempt + 1 ∧
          acts = [.call s.attempt, .sleep (delay (s.attempt + 1))] := by
        rw [syncRound] at hround
        grind
      have hshift : ∀ i : Nat, (t.attempt : Int) + 1 + i = s.attempt + 1 + (i + 1 : Nat) := by
        omega
      refine ⟨j + 1, ?_⟩
      rw [sleeps] at hj ⊢
      rw [hgoes.2, List.filterMap_append, hj, List.range_succ_eq_map]
      simp only [hshift, Act.delay?, List.filterMap_cons, List.filterMap_nil, List.map_cons,
        List.map_map, Function.comp_def, List.singleton_append, Nat.cast_zero, add_zero]
    · have hends : acts.filterMap Act.delay? = [] := by
        rw [syncRound] at hround
        grind [Act.delay?]
      exact ⟨0, hends⟩

/-- In any number of rounds, the sleeps are the delays from the second attempt
on. -/
theorem sleeps_syncRetry (policy : RetryPolicy) (delay : Int → ℚ) (func : Nat → Outcome α ε)
    (operation : String) (stopPredicate : Option (Nat → Bool)) (n : Nat) :
    ∃ j, sleeps (syncRetry policy delay func operation stopPredicate n).1 =
      (List.range j).map fun i : Nat => delay (i + 2) := by
  obtain ⟨j, hj⟩ := sleeps_rounds policy delay func operation stopPredicate n ⟨1, none⟩
  refine ⟨j, hj.trans (List.map_congr_left fun i _ => congrArg delay ?_)⟩
  dsimp only
  omega

/-- **The sleeps of a policy without jitter**: they grow from the base delay up to
the largest delay. -/
theorem sleeps_of_no_jitter (hj : policy.jitter = 0) (hm : 1 ≤ policy.multiplier)
    (hb : 0 ≤ policy.baseDelay) (draw : ℚ) (n : Nat) :
    let slept := sleeps
      (syncRetry policy (policy.exactDelay draw) func operation stopPredicate n).1
    slept.Pairwise (· ≤ ·) ∧ (∀ d ∈ slept.head?, d = min policy.maxDelay policy.baseDelay) ∧
      ∀ d ∈ slept, d ≤ policy.maxDelay := by
  intro slept
  obtain ⟨j, hslept⟩ :=
    sleeps_syncRetry policy (policy.exactDelay draw) func operation stopPredicate n
  rw [show slept = _ from hslept]
  refine ⟨?_, ?_, ?_⟩
  · refine List.pairwise_map.mpr (List.pairwise_lt_range.imp fun hlt => ?_)
    exact RetryPolicy.exactDelay_monotone hj hm hb draw (Nat.le_of_lt hlt)
  · intro d hd
    cases j with
    | zero => exact absurd hd (by simp)
    | succ j =>
      rw [List.range_succ_eq_map, List.map_cons, List.head?_cons, Option.mem_def,
        Option.some.injEq] at hd
      rw [← hd, ← RetryPolicy.exactDelay_two hj draw]
      simp
  · intro d hd
    obtain ⟨i, -, rfl⟩ := List.mem_map.mp hd
    exact RetryPolicy.exactDelay_le hj draw i

/-- **The retry loops do exactly the attempts and sleeps of the policy.** -/
theorem retry_attempts_and_sleeps (policy : RetryPolicy) (func : Nat → Outcome α ε)
    (operation : String) (delay : Int → ℚ) :
    (∀ stopPredicate k, Last policy func stopPredicate Outcome.isFinal k → ∀ n, k < n →
      let run := syncRetry policy delay func operation stopPredicate n
      attempts run.1 = List.range' 1 k ∧ run.1 = made policy delay func Outcome.isFinal k ∧
        run.2 = some (result func operation k)) ∧
    (∀ stopPredicate, (∀ k, ¬ Last policy func stopPredicate Outcome.isFinal k) → ∀ n,
      let run := syncRetry policy delay func operation stopPredicate n
      attempts run.1 = List.range' 1 n ∧ run.1 = failing delay n ∧ run.2 = none) ∧
    (∀ n, asyncRetry policy delay func n = syncRetry policy delay func operation none n) ∧
    (policy.jitter = 0 → 1 ≤ policy.multiplier → 0 ≤ policy.baseDelay → 0 ≤ policy.maxDelay →
      ∀ stopPredicate draw n,
        let slept := sleeps
          (syncRetry policy (policy.exactDelay draw) func operation stopPredicate n).1
        slept.Pairwise (· ≤ ·) ∧
          (∀ d ∈ slept.head?, d = min policy.maxDelay policy.baseDelay) ∧
          ∀ d ∈ slept, d ≤ policy.maxDelay) := by
  refine ⟨fun stopPredicate k hk n hn => ?_, fun stopPredicate h n => ?_,
    asyncRetry_eq_syncRetry, fun hj hm hb _ stopPredicate draw n =>
      sleeps_of_no_jitter hj hm hb draw n⟩
  · rw [syncRetry_of_last hk hn]
    exact ⟨attempts_made k, rfl, rfl⟩
  · rw [syncRetry_of_no_last h]
    exact ⟨attempts_failing n, rfl, rfl⟩

/-- Two attempts, one sleep of the base delay, then the value. -/
theorem retry_attempts_and_sleeps_second :
    let policy : RetryPolicy := ⟨some 3, 1 / 4, 5, 2, 0⟩
    let func : Nat → Outcome Nat String := fun k => if k = 1 then .exception "boom" else .value 7
    let run := syncRetry policy (policy.exactDelay 0) func "test" none 3
    attempts run.1 = [1, 2] ∧ run.2 = some (.returned 7) ∧
      asyncRetry policy (policy.exactDelay 0) func 3 = run ∧
      (sleeps run.1).Pairwise (· ≤ ·) := by
  intro policy func run
  have h := retry_attempts_and_sleeps policy func "test" (policy.exactDelay 0)
  have hlast : Last policy func none Outcome.isFinal 2 := by
    refine ⟨Or.inl ⟨by omega, Or.inl rfl⟩, fun k hk => ?_⟩
    by_contra hlt
    obtain rfl | rfl : k = 0 ∨ k = 1 := by omega
    · simp [StopsBefore] at hk
    · simp [StopsBefore, func, Outcome.isFinal, RetryPolicy.Exhausts, policy] at hk
  exact ⟨(h.1 none 2 hlast 3 (by omega)).1, (h.1 none 2 hlast 3 (by omega)).2.2,
    h.2.2.1 3, (h.2.2.2 rfl (by norm_num [policy]) (by norm_num [policy])
      (by norm_num [policy]) none 0 3).1⟩

/-- An exception that is no `Exception` ends the loop at once, although a later
attempt would succeed and the policy allows it. -/
theorem baseException_ends_retry :
    let policy : RetryPolicy := ⟨some 3, 1 / 4, 5, 2, 0⟩
    let func : Nat → Outcome Nat String := fun k =>
      if k = 1 then .baseException "KeyboardInterrupt" else .value 7
    Last policy func none Outcome.isValue 2 ∧
      ∀ n, 2 < n → (syncRetry policy (policy.exactDelay 0) func "test" none n) =
        ([.call 1], some (.raised "KeyboardInterrupt")) := by
  intro policy func
  refine ⟨⟨Or.inl ⟨by omega, Or.inl rfl⟩, fun k hk => ?_⟩, fun n hn => ?_⟩
  · by_contra hlt
    obtain rfl | rfl : k = 0 ∨ k = 1 := by omega
    · simp [StopsBefore] at hk
    · simp [StopsBefore, func, Outcome.isValue, RetryPolicy.Exhausts, policy] at hk
  · obtain ⟨m, rfl⟩ : ∃ m, n = m + 1 := ⟨n - 1, by omega⟩
    exact rounds_of_ends rfl

end Retry

end MqAdapters
