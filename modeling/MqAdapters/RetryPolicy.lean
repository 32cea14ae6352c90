import Mathlib.Algebra.Order.Field.Rat
import Mathlib.Tactic.Linarith
import Mathlib.Tactic.Positivity

/-!
# The backoff delay

`RetryPolicy.delay_for_attempt` over exact rationals, with the one property of
floats that decides what the loops do: `**` raises `OverflowError` when the
result exceeds the largest finite double.

`pause_eq_error_iff` says when the loops fail to pause: exactly when the power
overflows.
-/

namespace MqAdapters

structure RetryPolicy where
  maxAttempts : Option Int
  baseDelay : ℚ
  maxDelay : ℚ
  multiplier : ℚ
  jitter : ℚ

/-- The exceptions that the computation of a delay, or sleeping it, can raise. -/
inductive DelayError
  | overflowError
  | valueError
  deriving DecidableEq

/-- The largest finite double. -/
def maxDouble : ℚ := 2 ^ 1024 - 2 ^ 971

/-- `b ** n` for a float `b`. -/
def floatPow (b : ℚ) (n : Nat) : Except DelayError ℚ :=
  if |b ^ n| ≤ maxDouble then .ok (b ^ n) else .error .overflowError

namespace RetryPolicy

/-- The delay before jitter. -/
def backoff (self : RetryPolicy) (attempt : Int) : Except DelayError ℚ :=
  if attempt ≤ 1 then .ok 0
  else (floatPow self.multiplier (attempt - 2).toNat).map fun p =>
    min self.maxDelay (self.baseDelay * p)

/-- `delay_for_attempt`; `draw` is what `random.uniform` returns. -/
def delayForAttempt (self : RetryPolicy) (attempt : Int) (draw : ℚ) : Except DelayError ℚ :=
  (self.backoff attempt).map fun delay =>
    if 0 < self.jitter then max 0 (delay + draw) else delay

/-- `delay_for_attempt` where no power is too large. -/
def exactDelay (self : RetryPolicy) (draw : ℚ) (attempt : Int) : ℚ :=
  let delay :=
    if attempt ≤ 1 then 0
    else min self.maxDelay (self.baseDelay * self.multiplier ^ (attempt - 2).toNat)
  if 0 < self.jitter then max 0 (delay + draw) else delay

/-- `random.uniform(-jitter, jitter)` can return `draw`; without jitter nothing is
drawn. -/
def draws (self : RetryPolicy) (draw : ℚ) : Bool :=
  self.jitter ≤ 0 || (-self.jitter ≤ draw && draw ≤ self.jitter)

/-- `time.sleep(self.delay_for_attempt(attempt))`, which refuses a negative
delay. -/
def pause (self : RetryPolicy) (attempt : Int) (draw : ℚ) : Except DelayError ℚ :=
  match self.delayForAttempt attempt draw with
  | .error e => .error e
  | .ok delay => if delay < 0 then .error .valueError else .ok delay

/-- The policies that make sense: delays and jitter not negative, growth by at
least one. -/
structure Sane (policy : RetryPolicy) : Prop where
  baseDelay : 0 ≤ policy.baseDelay
  maxDelay : 0 ≤ policy.maxDelay
  multiplier : 1 ≤ policy.multiplier
  jitter : 0 ≤ policy.jitter

variable {self : RetryPolicy}

/-- **Where the power does not overflow, the delay is the exact one.** -/
theorem delayForAttempt_eq_exactDelay {attempt : Int} {draw delay : ℚ}
    (h : self.delayForAttempt attempt draw = .ok delay) : delay = self.exactDelay draw attempt := by
  unfold delayForAttempt backoff floatPow at h
  unfold exactDelay
  by_cases ha : attempt ≤ 1
  · rw [if_pos ha] at h ⊢
    exact (Except.ok.inj h).symm
  · rw [if_neg ha] at h ⊢
    by_cases hp : |self.multiplier ^ (attempt - 2).toNat| ≤ maxDouble
    · rw [if_pos hp] at h
      exact (Except.ok.inj h).symm
    · rw [if_neg hp] at h
      exact absurd h (by simp [Except.map])

theorem exactDelay_succ (hj : self.jitter = 0) (draw : ℚ) (i : Nat) :
    self.exactDelay draw (i + 2) = min self.maxDelay (self.baseDelay * self.multiplier ^ i) := by
  have hnot : ¬ ((i : Int) + 2 ≤ 1) := by omega
  simp [exactDelay, hj, hnot]

/-- Without jitter, a growing policy waits longer and longer. -/
theorem exactDelay_monotone (hj : self.jitter = 0) (hm : 1 ≤ self.multiplier)
    (hb : 0 ≤ self.baseDelay) (draw : ℚ) {i j : Nat} (hij : i ≤ j) :
    self.exactDelay draw (i + 2) ≤ self.exactDelay draw (j + 2) := by
  rw [exactDelay_succ hj, exactDelay_succ hj]
  exact min_le_min_left _ (mul_le_mul_of_nonneg_left (pow_le_pow_right₀ hm hij) hb)

theorem exactDelay_two (hj : self.jitter = 0) (draw : ℚ) :
    self.exactDelay draw 2 = min self.maxDelay self.baseDelay := by
  simpa using exactDelay_succ hj draw 0

theorem exactDelay_le (hj : self.jitter = 0) (draw : ℚ) (i : Nat) :
    self.exactDelay draw (i + 2) ≤ self.maxDelay := by
  rw [exactDelay_succ hj]
  exact min_le_left _ _

/-- After `n` failures, the delay before the next attempt cannot be computed
exactly when the power exceeds the largest finite double. -/
theorem delayForAttempt_eq_error_iff (hs : self.Sane) (n : Nat) (draw : ℚ) (e : DelayError) :
    self.delayForAttempt (n + 2) draw = .error e ↔
      maxDouble < self.multiplier ^ n ∧ e = .overflowError := by
  have hpow : |self.multiplier ^ n| = self.multiplier ^ n :=
    abs_of_nonneg (pow_nonneg (zero_le_one.trans hs.multiplier) n)
  have hnot : ¬ ((n : Int) + 2 ≤ 1) := by omega
  simp only [delayForAttempt, backoff, hnot, if_false, floatPow, add_sub_cancel_right,
    Int.toNat_natCast, hpow]
  by_cases h : self.multiplier ^ n ≤ maxDouble
  · simp [Except.map, h, not_lt.mpr h]
  · simp [Except.map, h, not_le.mp h, eq_comm]

theorem delayForAttempt_nonneg (hs : self.Sane) {attempt : Int} {draw delay : ℚ}
    (h : self.delayForAttempt attempt draw = .ok delay) : 0 ≤ delay := by
  have hback : ∀ {b}, self.backoff attempt = .ok b → 0 ≤ b := by
    intro b hb
    unfold backoff at hb
    split at hb
    · exact (Except.ok.inj hb).le
    · unfold floatPow at hb
      split at hb
      · rw [← Except.ok.inj hb]
        exact le_min hs.maxDelay
          (mul_nonneg hs.baseDelay (pow_nonneg (zero_le_one.trans hs.multiplier) _))
      · exact absurd hb (by simp [Except.map])
  unfold delayForAttempt at h
  rcases hb : self.backoff attempt with e | b <;> rw [hb] at h
  · exact absurd h (by simp [Except.map])
  · rw [← Except.ok.inj h]
    split
    · exact le_max_left _ _
    · exact hback hb

/-- **After `n` failures the loops fail to pause exactly when the power exceeds
the largest finite double.** -/
theorem pause_eq_error_iff (hs : self.Sane) (n : Nat) (draw : ℚ) :
    (∃ e, self.pause (n + 2) draw = .error e) ↔ maxDouble < self.multiplier ^ n := by
  have herr := delayForAttempt_eq_error_iff hs n draw
  unfold pause
  rcases hd : self.delayForAttempt (n + 2) draw with e | delay
  · simp only [Except.error.injEq, exists_eq']
    exact (iff_true_left trivial).mpr ((herr e).mp hd).1
  · have hnn := delayForAttempt_nonneg hs hd
    simp only [not_lt.mpr hnn, if_false, reduceCtorEq, exists_false, false_iff]
    intro hlt
    exact absurd ((herr .overflowError).mpr ⟨hlt, rfl⟩) (by rw [hd]; simp)

theorem pause_nonneg {attempt : Int} {draw delay : ℚ} (h : self.pause attempt draw = .ok delay) :
    0 ≤ delay := by
  unfold pause at h
  split at h
  · exact absurd h (by simp)
  · split at h
    · exact absurd h (by simp)
    · next hd => rw [← Except.ok.inj h]; exact not_lt.mp hd

/-- The first attempt can always be paused for. -/
theorem pause_one (self : RetryPolicy) (draw : ℚ) (e : DelayError) :
    self.pause 1 draw ≠ .error e := by
  have hd : ∃ delay, self.delayForAttempt 1 draw = .ok delay ∧ 0 ≤ delay := by
    refine ⟨_, rfl, ?_⟩
    split
    · exact le_max_left _ _
    · exact le_rfl
  obtain ⟨delay, hd, hnn⟩ := hd
  simp [pause, hd, not_lt.mpr hnn]

/-- The pause before this attempt cannot be taken. -/
def stuck (self : RetryPolicy) (attempt : Int) : Bool :=
  match self.pause attempt 0 with
  | .error _ => true
  | .ok _ => false

/-- Whether it can does not depend on what is drawn. -/
theorem pause_eq_error_iff_stuck (self : RetryPolicy) (attempt : Int) (draw : ℚ) :
    (∃ e, self.pause attempt draw = .error e) ↔ self.stuck attempt = true := by
  unfold stuck pause delayForAttempt
  rcases self.backoff attempt with e | delay
  · simp [Except.map]
  · by_cases hj : 0 < self.jitter
    · simp [Except.map, hj]
    · by_cases hneg : delay < 0 <;> simp [Except.map, hj, hneg]

theorem pause_of_not_stuck {attempt : Int} (h : self.stuck attempt = false) (draw : ℚ) :
    ∃ delay, self.pause attempt draw = .ok delay ∧ 0 ≤ delay := by
  rcases hp : self.pause attempt draw with e | delay
  · rw [(self.pause_eq_error_iff_stuck attempt draw).mp ⟨e, hp⟩] at h
    cases h
  · exact ⟨delay, rfl, pause_nonneg hp⟩

theorem stuck_of_pause_error {attempt : Int} {draw : ℚ} {e : DelayError}
    (h : self.pause attempt draw = .error e) : self.stuck attempt = true :=
  (self.pause_eq_error_iff_stuck attempt draw).mp ⟨e, h⟩

theorem not_stuck_of_pause {attempt : Int} {draw delay : ℚ}
    (h : self.pause attempt draw = .ok delay) : self.stuck attempt = false := by
  by_contra hstuck
  obtain ⟨e, he⟩ := (self.pause_eq_error_iff_stuck attempt draw).mpr (by simpa using hstuck)
  rw [he] at h
  cases h

/-- Zero can always be drawn. -/
theorem draws_zero (self : RetryPolicy) : self.draws 0 = true := by
  by_cases hj : self.jitter ≤ 0
  · simp [draws, hj]
  · simp [draws, (not_le.mp hj).le]

/-- What a loop has counted after one more failure, if it can pause then. -/
def afterFailure (self : RetryPolicy) (failures : Nat) : Option Nat :=
  if self.stuck (failures + 2) then none else some (failures + 1)

end RetryPolicy

/-! ## The policies used by default -/

/-- `SyncPublishBackend`'s reconnects and `Listener`'s main loop. -/
def loopRetryPolicy : RetryPolicy := ⟨none, 1 / 2, 10, 2, 1 / 4⟩

/-- `Listener`'s connects. -/
def connectRetryPolicy : RetryPolicy := ⟨none, 1, 30, 2, 1 / 4⟩

theorem loopRetryPolicy_sane : loopRetryPolicy.Sane :=
  ⟨by norm_num [loopRetryPolicy], by norm_num [loopRetryPolicy], by norm_num [loopRetryPolicy],
    by norm_num [loopRetryPolicy]⟩

theorem connectRetryPolicy_sane : connectRetryPolicy.Sane :=
  ⟨by norm_num [connectRetryPolicy], by norm_num [connectRetryPolicy],
    by norm_num [connectRetryPolicy], by norm_num [connectRetryPolicy]⟩

/-- With the default multiplier, the power overflows after 1024 failures. -/
theorem two_pow_le_maxDouble_iff (n : Nat) : (2 : ℚ) ^ n ≤ maxDouble ↔ n ≤ 1023 := by
  constructor
  · intro h
    by_contra hn
    have hle : (2 : ℚ) ^ 1024 ≤ 2 ^ n := pow_le_pow_right₀ (by norm_num) (by omega)
    have hpos : (0 : ℚ) < 2 ^ 971 := by positivity
    exact absurd (hle.trans h) (not_le.mpr (sub_lt_self _ hpos))
  · intro hn
    refine le_sub_iff_add_le.mpr ?_
    calc (2 : ℚ) ^ n + 2 ^ 971
        ≤ 2 ^ 1023 + 2 ^ 1023 :=
          add_le_add (pow_le_pow_right₀ (by norm_num) hn)
            (pow_le_pow_right₀ (by norm_num) (by norm_num))
      _ = 2 ^ 1024 := by rw [← two_mul, ← pow_succ' 2 1023]

end MqAdapters
