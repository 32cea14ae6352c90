import MqAdapters.MaxAttempts
import MqAdapters.Retry

/-!
# What `max_delay` bounds

`delay_for_attempt` takes the minimum with `max_delay` first and adds the jitter
afterwards, for the first attempt too.  So a delay can exceed `max_delay` by the jitter,
and the first attempt need not be immediate.

* `inBounds_iff`: which delays are within what `RetryPolicy` promises.
* `Caps`: whatever is drawn, the pause after so many failures is at most `max_delay`.
* `maxDelay_bounds_iff`: when the promise is kept, for the delays and for what each of
  the loops sleeps.
-/

namespace MqAdapters

open Theory

namespace RetryPolicy

variable {self : RetryPolicy}

/-! ## One delay -/

/-- The delay is between zero and `max_delay`, and zero for the first attempt. -/
structure InBounds (policy : RetryPolicy) (attempt : Int) (draw : ℚ) : Prop where
  nonneg : 0 ≤ policy.exactDelay draw attempt
  le : policy.exactDelay draw attempt ≤ policy.maxDelay
  first : attempt ≤ 1 → policy.exactDelay draw attempt = 0

/-- There is no jitter, or what is drawn leaves the delay within its bounds. -/
def Fits (policy : RetryPolicy) (attempt : Int) (draw : ℚ) : Prop :=
  policy.jitter = 0 ∨ draw ≤ 0 ∨
    1 < attempt ∧
      policy.baseDelay * policy.multiplier ^ (attempt - 2).toNat + draw ≤ policy.maxDelay

/-- Whatever is drawn, the pause after `i + 1` failures is at most `max_delay`. -/
def Caps (policy : RetryPolicy) (i : Nat) : Prop :=
  policy.jitter = 0 ∨ policy.baseDelay * policy.multiplier ^ i + policy.jitter ≤ policy.maxDelay

theorem exactDelay_nonneg (hs : self.Sane) (attempt : Int) (draw : ℚ) :
    0 ≤ self.exactDelay draw attempt := by
  have hpow := pow_nonneg (zero_le_one.trans hs.multiplier) (attempt - 2).toNat
  unfold exactDelay
  dsimp only
  split
  · exact le_max_left _ _
  · split
    · exact le_refl _
    · exact le_min hs.maxDelay (mul_nonneg hs.baseDelay hpow)

theorem exactDelay_of_no_jitter (hj : self.jitter = 0) (attempt : Int) (draw : ℚ) :
    self.exactDelay draw attempt = if attempt ≤ 1 then 0
      else min self.maxDelay (self.baseDelay * self.multiplier ^ (attempt - 2).toNat) := by
  simp [exactDelay, hj]

theorem exactDelay_of_jitter (hj : 0 < self.jitter) (attempt : Int) (draw : ℚ) :
    self.exactDelay draw attempt = max 0 ((if attempt ≤ 1 then 0
      else min self.maxDelay (self.baseDelay * self.multiplier ^ (attempt - 2).toNat)) + draw) := by
  simp [exactDelay, hj]

/-- Without jitter the delays are what `RetryPolicy` promises. -/
theorem inBounds_of_no_jitter (hs : self.Sane) (hj : self.jitter = 0) (attempt : Int)
    (draw : ℚ) : self.InBounds attempt draw := by
  refine ⟨exactDelay_nonneg hs attempt draw, ?_, fun hle => ?_⟩
  · rw [exactDelay_of_no_jitter hj]
    split
    · exact hs.maxDelay
    · exact min_le_left _ _
  · rw [exactDelay_of_no_jitter hj, if_pos hle]

/-- **Which delays are within bounds.** -/
theorem inBounds_iff (hs : self.Sane) (attempt : Int) (draw : ℚ) :
    self.InBounds attempt draw ↔ self.Fits attempt draw := by
  unfold Fits
  rcases hs.jitter.eq_or_lt with hj | hj
  · exact iff_of_true (inBounds_of_no_jitter hs hj.symm attempt draw) (.inl hj.symm)
  · have hdelay := exactDelay_of_jitter hj attempt draw
    have hnn := exactDelay_nonneg hs attempt draw
    rw [or_iff_right hj.ne']
    by_cases hfirst : attempt ≤ 1
    · rw [if_pos hfirst, zero_add] at hdelay
      constructor
      · intro h
        have hzero := h.first hfirst
        rw [hdelay] at hzero
        exact .inl (max_eq_left_iff.mp hzero)
      · rintro (hle | ⟨hlt, -⟩)
        · rw [max_eq_left hle] at hdelay
          exact ⟨hnn, hdelay ▸ hs.maxDelay, fun _ => hdelay⟩
        · omega
    · rw [if_neg hfirst] at hdelay
      constructor
      · intro h
        have hle := (le_max_right _ _).trans (hdelay ▸ h.le)
        rcases min_cases self.maxDelay
          (self.baseDelay * self.multiplier ^ (attempt - 2).toNat) with ⟨hmin, -⟩ | ⟨hmin, -⟩
        · rw [hmin] at hle
          exact .inl (by linarith)
        · rw [hmin] at hle
          exact .inr ⟨by omega, hle⟩
      · intro h
        refine ⟨hnn, ?_, fun hle => absurd hle hfirst⟩
        rw [hdelay]
        refine max_le hs.maxDelay ?_
        rcases h with hle | ⟨-, hle⟩
        · have := min_le_left self.maxDelay
            (self.baseDelay * self.multiplier ^ (attempt - 2).toNat)
          linarith
        · have := min_le_right self.maxDelay
            (self.baseDelay * self.multiplier ^ (attempt - 2).toNat)
          linarith

theorem draws_jitter (hs : self.Sane) : self.draws self.jitter = true := by
  have hneg : -self.jitter ≤ self.jitter := by linarith [hs.jitter]
  simp [draws, hneg]

/-- **The promise is kept for every draw only without jitter**: the first attempt can
be delayed by it. -/
theorem inBounds_all_iff (hs : self.Sane) :
    (∀ attempt draw, self.draws draw = true → self.InBounds attempt draw) ↔ self.jitter = 0 := by
  refine ⟨fun h => ?_, fun hj attempt draw _ => inBounds_of_no_jitter hs hj attempt draw⟩
  rcases (inBounds_iff hs _ _).mp (h 1 self.jitter (draws_jitter hs)) with hj | hj | ⟨hlt, -⟩
  · exact hj
  · exact le_antisymm hj hs.jitter
  · exact absurd hlt (lt_irrefl 1)

/-! ## The pauses of a loop -/

theorem not_first (i : Nat) : ¬ (i : Int) + 2 ≤ 1 := by omega

theorem exponent (i : Nat) : ((i : Int) + 2 - 2).toNat = i := by omega

/-- The longest pause after `i + 1` failures. -/
theorem caps_of_le (hs : self.Sane) {i : Nat}
    (h : self.exactDelay self.jitter (i + 2) ≤ self.maxDelay) : self.Caps i := by
  have hbounds : self.InBounds (i + 2) self.jitter :=
    ⟨exactDelay_nonneg hs _ _, h, fun hle => absurd hle (not_first i)⟩
  rcases (inBounds_iff hs _ _).mp hbounds with hj | hj | ⟨-, hle⟩
  · exact .inl hj
  · exact .inl (le_antisymm hj hs.jitter)
  · rw [exponent] at hle
    exact .inr hle

theorem Caps.le (hs : self.Sane) {i : Nat} (h : self.Caps i) {draw : ℚ}
    (hd : self.draws draw = true) : self.exactDelay draw (i + 2) ≤ self.maxDelay := by
  refine ((inBounds_iff hs _ _).mpr ?_).le
  rcases h with hj | hle
  · exact .inl hj
  · by_cases hj : self.jitter = 0
    · exact .inl hj
    · have hpos : ¬ self.jitter ≤ 0 := fun hle => hj (le_antisymm hle hs.jitter)
      have hdraw : draw ≤ self.jitter := by
        simp only [draws, hpos, decide_false, Bool.false_or, Bool.and_eq_true,
          decide_eq_true_eq] at hd
        exact hd.2
      exact .inr (.inr ⟨by omega, by rw [exponent]; linarith⟩)

theorem delay_of_pause {attempt : Int} {draw delay : ℚ}
    (h : self.pause attempt draw = .ok delay) : delay = self.exactDelay draw attempt := by
  unfold pause at h
  cases hd : self.delayForAttempt attempt draw with
  | error e => rw [hd] at h; cases h
  | ok d =>
    rw [hd] at h
    dsimp only at h
    split at h
    · cases h
    · rw [← Except.ok.inj h]
      exact delayForAttempt_eq_exactDelay hd

/-- A pause that can be taken could be taken after fewer failures. -/
theorem not_stuck_mono (hs : self.Sane) {i j : Nat} (hij : i ≤ j)
    (h : self.stuck (j + 2) = false) : self.stuck (i + 2) = false := by
  have hstuck : ∀ n : Nat, self.stuck (n + 2) = true ↔ maxDouble < self.multiplier ^ n := fun n =>
    (self.pause_eq_error_iff_stuck (n + 2) 0).symm.trans (pause_eq_error_iff hs n 0)
  rw [← Bool.not_eq_true, hstuck] at h ⊢
  exact fun hlt => h (hlt.trans_le (pow_le_pow_right₀ hs.multiplier hij))

end RetryPolicy

/-! ## `sync_retry` and `async_retry` -/

namespace Retry

variable {α ε : Type} {policy : RetryPolicy} {delay : Int → ℚ} {func : Nat → Outcome α ε}
  {operation : String} {stopPredicate : Option (Nat → Bool)}

theorem mem_sleeps {acts : List Act} {d : ℚ} : d ∈ sleeps acts ↔ .sleep d ∈ acts := by
  unfold sleeps
  rw [List.mem_filterMap]
  constructor
  · rintro ⟨act, hact, hd⟩
    cases act with
    | call attempt => cases hd
    | sleep delay => exact Option.some.inj hd ▸ hact
  · exact fun h => ⟨_, h, rfl⟩

/-- The loop sleeps only before an attempt that the policy allows. -/
theorem exists_of_mem_sleeps {n : Nat} {d : ℚ}
    (hd : d ∈ sleeps (syncRetry policy delay func operation stopPredicate n).1) :
    ∃ i, policy.exhausted (i + 1) = false ∧ d = delay (i + 2) := by
  refine rounds_acts (P := fun s => 1 ≤ s.attempt) (Q := fun act => ∀ d, act = .sleep d →
    ∃ i, policy.exhausted (i + 1) = false ∧ d = delay (i + 2)) ?_ n (le_refl 1) _
    (mem_sleeps.mp hd) d rfl
  intro s hs
  obtain ⟨i, hi⟩ : ∃ i, s.attempt = i + 1 := ⟨s.attempt - 1, by omega⟩
  unfold syncRound
  split
  · split <;> exact ⟨nofun, nofun⟩
  · split
    · exact ⟨by simp, nofun⟩
    · exact ⟨by simp, nofun⟩
    · cases hx : policy.exhausted s.attempt with
      | true => exact ⟨by simp, nofun⟩
      | false =>
        refine ⟨fun act hact d hact' => ?_, fun t ht => ?_⟩
        · obtain rfl : d = delay (s.attempt + 1) := by simpa [hact'] using hact
          exact ⟨i, hi ▸ hx, by rw [hi]; congr 1⟩
        · obtain rfl := Sum.inl.inj ht
          exact Nat.le_add_left 1 s.attempt

/-- Where every attempt fails, the loop sleeps before each that the policy allows. -/
theorem mem_sleeps_of_failing (delay : Int → ℚ) (α : Type) {ε : Type} (e : ε) {i : Nat}
    (h : policy.exhausted (i + 1) = false) :
    delay (i + 2) ∈ sleeps
      (asyncRetry policy delay (fun _ => .exception e : Nat → Outcome α ε) (i + 1)).1 := by
  rw [show asyncRetry policy delay (fun _ => .exception e : Nat → Outcome α ε) (i + 1) =
    syncRetry policy delay _ "" none (i + 1) from asyncRetry_eq_syncRetry _, syncRetry_of_goes]
  · rw [mem_sleeps, failing, List.mem_flatMap]
    exact ⟨i, List.mem_range.mpr (Nat.lt_succ_self i), by simp⟩
  · intro j hj
    refine ⟨by simp [StopsBefore], rfl, fun hx => ?_⟩
    rw [exhausts_iff (by omega)] at hx
    unfold RetryPolicy.exhausted at h hx
    obtain ⟨n, hn, hle⟩ := (Option.any_eq_true _ _).mp hx
    rw [hn, Option.any_some, decide_eq_false_iff_not] at h
    exact h (by simp only [decide_eq_true_eq] at hle; omega)

/-- Whatever it calls, `sync_retry` never sleeps longer than `max_delay`. -/
def SyncRests (policy : RetryPolicy) (α ε : Type) : Prop :=
  ∀ (func : Nat → Outcome α ε) (operation : String) (stopPredicate : Option (Nat → Bool))
    (draw : Int → ℚ) (n : Nat), (∀ a, policy.draws (draw a) = true) →
    ∀ d ∈ sleeps (syncRetry policy (fun a => policy.exactDelay (draw a) a) func operation
      stopPredicate n).1, d ≤ policy.maxDelay

/-- The same of `async_retry`. -/
def AsyncRests (policy : RetryPolicy) (α ε : Type) : Prop :=
  ∀ (func : Nat → Outcome α ε) (draw : Int → ℚ) (n : Nat), (∀ a, policy.draws (draw a) = true) →
    ∀ d ∈ sleeps (asyncRetry policy (fun a => policy.exactDelay (draw a) a) func n).1,
      d ≤ policy.maxDelay

theorem asyncRests_of_syncRests {α ε : Type} (h : SyncRests policy α ε) :
    AsyncRests policy α ε := by
  intro func draw n hdraw d hd
  refine h func "" none draw n hdraw d ?_
  rwa [← asyncRetry_eq_syncRetry]

theorem caps_of_asyncRests (hs : policy.Sane) {α ε : Type} (e : ε)
    (h : AsyncRests policy α ε) {i : Nat} (hi : policy.exhausted (i + 1) = false) :
    policy.Caps i := by
  have hmem := mem_sleeps_of_failing (fun a => policy.exactDelay policy.jitter a) α e hi
  exact RetryPolicy.caps_of_le hs (h (fun _ => .exception e) (fun _ => policy.jitter) (i + 1)
    (fun _ => RetryPolicy.draws_jitter hs) _ hmem)

theorem syncRests_of_caps (hs : policy.Sane)
    (h : ∀ i, policy.exhausted (i + 1) = false → policy.Caps i) (α ε : Type) :
    SyncRests policy α ε := by
  intro func operation stopPredicate draw n hdraw d hd
  obtain ⟨i, hi, rfl⟩ := exists_of_mem_sleeps hd
  exact (h i hi).le hs (hdraw _)

/-- **What the retry loops sleep** is at most `max_delay` exactly when the pauses that
the policy allows are. -/
theorem rests_iff (hs : policy.Sane) (α : Type) {ε : Type} (e : ε) :
    (SyncRests policy α ε ↔ ∀ i, policy.exhausted (i + 1) = false → policy.Caps i) ∧
      (AsyncRests policy α ε ↔ ∀ i, policy.exhausted (i + 1) = false → policy.Caps i) := by
  have hcaps := fun h : AsyncRests policy α ε => fun i => caps_of_asyncRests hs e h (i := i)
  exact ⟨⟨fun h => hcaps (asyncRests_of_syncRests h), fun h => syncRests_of_caps hs h α ε⟩,
    ⟨hcaps, fun h => asyncRests_of_syncRests (syncRests_of_caps hs h α ε)⟩⟩

end Retry

/-! ## `Listener.run` -/

namespace ListenerLoop

variable {self : Config} {s t : ListenerLoop} {failures : Nat}

/-- When the sleep that the loop is in ends. -/
def Pc.wakes : Pc → Option ℚ
  | .retrySleep _ until_ => some until_
  | .sleep until_ => some until_
  | _ => none

/-- What the loop draws before a sleep is a jitter. -/
theorem draws_of_io {raises runs : Bool} {draw : ℚ} (h : s.io self raises runs draw = some t) :
    match s.pc with
    | .retryFailed _ => self.connectRetryPolicy.draws draw = true
    | .backoff _ => self.loopRetryPolicy.draws draw = true
    | _ => True := by
  unfold io at h
  cases hpc : s.pc <;> simp only [hpc] at h ⊢
  case retryFailed | backoff =>
    split at h
    · assumption
    · cases h

/-- **How the loop comes to sleep**: it sleeps already, or it begins to in one of two
places. -/
theorem wakes_io {raises runs : Bool} {draw until_ : ℚ}
    (h : s.io self raises runs draw = some t) (ht : t.pc.wakes = some until_) :
    (∃ attempt delay, t.pc = .retrySleep attempt until_ ∧ givesUp self attempt = false ∧
      self.connectRetryPolicy.draws draw = true ∧
      self.connectRetryPolicy.pause (attempt + 1) draw = .ok delay ∧ until_ = t.clock + delay ∧
      s.pc = .retryFailed attempt) ∨
    (∃ delay, t.pc = .sleep until_ ∧ self.loopRetryPolicy.draws draw = true ∧
      self.loopRetryPolicy.pause (s.loopFailures + 2) draw = .ok delay ∧
      until_ = t.clock + delay) := by
  have hcases := io_cases h
  have hdraws := draws_of_io h
  cases hpc : s.pc <;> simp only [hpc] at hcases hdraws ⊢
  case retryFailed attempt =>
    obtain ⟨-, rfl⟩ | ⟨hmax, ⟨e, -, rfl⟩ | ⟨delay, hdelay, rfl⟩⟩ := hcases
    · cases ht
    · cases ht
    · obtain rfl := Option.some.inj ht
      refine .inl ⟨attempt, delay, rfl, ?_, hdraws, hdelay, rfl, rfl⟩
      simp [givesUp, hmax, RetryPolicy.not_stuck_of_pause hdelay]
  case backoff level =>
    obtain ⟨e, -, rfl⟩ | ⟨delay, hdelay, rfl⟩ := hcases
    · cases level <;> cases ht
    · obtain rfl := Option.some.inj ht
      exact .inr ⟨delay, rfl, hdraws, hdelay, rfl⟩
  case begin => subst hcases; cases ht
  case top | checkConnection | retry | connecting | checkChannel | handler =>
    obtain ⟨-, rfl⟩ | ⟨-, rfl⟩ := hcases
    all_goals cases ht
  case retrySleep | sleep => obtain ⟨-, rfl⟩ := hcases; cases ht
  case openChannel =>
    obtain ⟨-, rfl⟩ | ⟨c, -, -, rfl⟩ := hcases
    all_goals cases ht
  case setup =>
    obtain ⟨-, rfl⟩ | ⟨-, rfl⟩ := hcases
    all_goals cases ht
  case pump =>
    subst hcases
    unfold pump at ht
    dsimp only at ht
    split at ht <;> cases ht
  case closeChannel | closeConnection | clearChannel | clearConnection =>
    subst hcases
    cases ht

/-- The attempt that `sync_retry` is at. -/
def Pc.attempt : Pc → Option Nat
  | .retry attempt => some attempt
  | .connecting attempt => some attempt
  | .retryFailed attempt => some attempt
  | .retrySleep attempt _ => some attempt
  | _ => none

/-- The attempts of `sync_retry` are counted from one. -/
theorem attempt_io {raises runs : Bool} {draw : ℚ} (hs : ∀ a, s.pc.attempt = some a → 1 ≤ a)
    (h : s.io self raises runs draw = some t) : ∀ a, t.pc.attempt = some a → 1 ≤ a := by
  intro a ha
  have hcases := io_cases h
  cases hpc : s.pc <;> simp only [hpc] at hcases hs
  case begin => subst hcases; cases ha
  case top | checkChannel | handler =>
    obtain ⟨-, rfl⟩ | ⟨-, rfl⟩ := hcases
    all_goals cases ha
  case checkConnection =>
    obtain ⟨-, rfl⟩ | ⟨-, rfl⟩ := hcases
    · cases ha
    · exact Option.some.inj ha ▸ le_refl 1
  case retry attempt =>
    obtain ⟨-, rfl⟩ | ⟨-, rfl⟩ := hcases
    · cases ha
    · exact hs a ha
  case connecting attempt =>
    obtain ⟨-, rfl⟩ | ⟨-, rfl⟩ := hcases
    · exact hs a ha
    · cases ha
  case retryFailed attempt =>
    obtain ⟨-, escapes, rfl⟩ | ⟨-, delay, -, rfl⟩ := retryFailed_cases hpc h
    · cases ha
    · exact hs a ha
  case retrySleep attempt until_ =>
    obtain ⟨-, rfl⟩ := hcases
    exact Option.some.inj ha ▸ Nat.le_add_left 1 attempt
  case openChannel =>
    obtain ⟨-, rfl⟩ | ⟨c, -, -, rfl⟩ := hcases
    all_goals cases ha
  case setup =>
    obtain ⟨-, rfl⟩ | ⟨-, rfl⟩ := hcases
    all_goals cases ha
  case pump =>
    subst hcases
    unfold pump at ha
    dsimp only at ha
    split at ha <;> cases ha
  case closeChannel | closeConnection | clearChannel | clearConnection =>
    subst hcases
    cases ha
  case backoff level =>
    obtain ⟨e, -, rfl⟩ | ⟨delay, -, rfl⟩ := hcases
    · cases level <;> cases ha
    · cases ha
  case sleep => obtain ⟨-, rfl⟩ := hcases; cases ha

/-- The other steps do not set the clock back. -/
theorem clock_step {a : Action} (h : s.step self a = some t)
    (ha : ∀ raises runs draw, a ≠ .io raises runs draw) : s.clock ≤ t.clock := by
  have hcases := step_cases h
  cases a with
  | io raises runs draw => exact absurd rfl (ha raises runs draw)
  | callStop => obtain ⟨-, rfl⟩ := hcases; exact le_refl _
  | tick dt => obtain ⟨hdt, rfl⟩ := hcases; exact le_add_of_nonneg_right hdt
  | stop =>
    rcases stop_cases h with ⟨_, _, _, rfl⟩ | ⟨-, rfl⟩ | ⟨_, -, rfl⟩ | ⟨c, _, -, -, rfl⟩
    · exact le_refl _
    · exact le_refl _
    · obtain ⟨channels, hshut⟩ := exists_shutChannel s s.channel
      rw [hshut]
    · exact le_refl _
  | lose c => cases h; exact le_refl _
  | loseChannel k => cases h; exact le_refl _

/-- The loop sleeps no longer than its policies say. -/
structure Rests (config : Config) (s : ListenerLoop) : Prop where
  attempt : ∀ a, s.pc.attempt = some a → 1 ≤ a
  connect : config.connectRetryPolicy.Sane →
    (∀ i, givesUp config (i + 1) = false → config.connectRetryPolicy.Caps i) →
    ∀ attempt until_, s.pc = .retrySleep attempt until_ →
      until_ ≤ s.clock + config.connectRetryPolicy.maxDelay
  loop : config.loopRetryPolicy.Sane →
    (∀ i : Nat, config.loopRetryPolicy.stuck (i + 2) = false → config.loopRetryPolicy.Caps i) →
    ∀ until_, s.pc = .sleep until_ → until_ ≤ s.clock + config.loopRetryPolicy.maxDelay

theorem rests_step {a : Action} (hs : Rests self s) (h : s.step self a = some t) :
    Rests self t := by
  cases a with
  | io raises runs draw =>
    have hattempt := attempt_io hs.attempt h
    refine ⟨hattempt, fun hsane hcaps attempt until_ hpc => ?_, fun hsane hcaps until_ hpc => ?_⟩
    · obtain ⟨attempt', delay, hpc', hup, hdraw, hdelay, rfl, -⟩ | ⟨_, hpc', -⟩ :=
        wakes_io h (by rw [hpc]; rfl)
      · obtain rfl : attempt' = attempt := by
          rw [hpc] at hpc'
          exact (Pc.retrySleep.inj hpc').1.symm
        obtain ⟨i, rfl⟩ : ∃ i, attempt' = i + 1 :=
          ⟨attempt' - 1, by have := hattempt attempt' (by rw [hpc]; rfl); omega⟩
        rw [RetryPolicy.delay_of_pause hdelay, add_le_add_iff_left]
        have hle := (hcaps i hup).le hsane hdraw
        rwa [show ((i + 1 : Nat) : Int) + 1 = i + 2 by omega]
      · rw [hpc] at hpc'; cases hpc'
    · obtain ⟨_, _, hpc', -⟩ | ⟨delay, -, hdraw, hdelay, rfl⟩ := wakes_io h (by rw [hpc]; rfl)
      · rw [hpc] at hpc'; cases hpc'
      · rw [RetryPolicy.delay_of_pause hdelay, add_le_add_iff_left]
        exact (hcaps _ (RetryPolicy.not_stuck_of_pause hdelay)).le hsane hdraw
  | _ =>
    have hpc := (leaves_step h (by simp)).pc
    have hclock := clock_step h (by simp)
    refine ⟨hpc ▸ hs.attempt, fun hsane hcaps attempt until_ ht => ?_,
      fun hsane hcaps until_ ht => ?_⟩
    · exact (hs.connect hsane hcaps attempt until_ (hpc ▸ ht)).trans (add_le_add_left hclock _)
    · exact (hs.loop hsane hcaps until_ (hpc ▸ ht)).trans (add_le_add_left hclock _)

theorem rests_of_reach (h : (machine self).Reach Machine.anyStep s) : Rests self s :=
  h.invariant ⟨nofun, nofun, nofun⟩ fun _ _ _ _ _ hs ht => rests_step hs ht

/-! ### The runs that sleep longest -/

/-- A delay that can be slept could be slept after fewer attempts. -/
theorem not_givesUp_mono (hs : self.connectRetryPolicy.Sane) {i j : Nat} (hij : i ≤ j)
    (h : givesUp self (j + 1) = false) : givesUp self (i + 1) = false := by
  have hcast : ∀ n : Nat, ((n + 1 : Nat) : Int) + 1 = n + 2 := by omega
  simp only [givesUp, hcast, Bool.or_eq_false_iff] at h ⊢
  refine ⟨?_, RetryPolicy.not_stuck_mono hs hij h.2⟩
  have hany := h.1
  cases hmax : self.connectRetryPolicy.maxAttempts with
  | none => rfl
  | some n =>
    rw [hmax, Option.any_some, decide_eq_false_iff_not] at hany
    rw [Option.any_some, decide_eq_false_iff_not]
    omega

/-- A connection factory that raises lets `sync_retry` sleep after each attempt that is
not its last, with the jitter as it is drawn. -/
theorem exists_retrySleep (hs : self.connectRetryPolicy.Sane) {i : Nat}
    (h : givesUp self (i + 1) = false) :
    ∃ s, (machine self).Reach Machine.anyStep s ∧ s.pc = .retrySleep (i + 1)
      (s.clock + self.connectRetryPolicy.exactDelay self.connectRetryPolicy.jitter (i + 2)) := by
  obtain ⟨s, hstart, hretry⟩ := atHead_atHead.exists_retry self (k := 0) rfl
  have hnext : ∀ m, m < i → afterConnect self (0, m + 1) = some (0, m + 1 + 1) := fun m hm =>
    if_neg (by simp [not_givesUp_mono hs hm.le h])
  obtain ⟨t, hrun, hat⟩ := Machine.exists_rounds AtRetry (fun m => (0, m + 1))
    (fun i j s k hs hj => exists_connect hs hj) hretry hnext
  have hreach : (machine self).Reach Machine.anyStep { t with pc := .retryFailed (i + 1) } :=
    (atHead_reach self).trans (((Machine.Path.of_counting hstart).trans (hrun.trans
      (Machine.Path.of_counting (exists_connecting self (k := 0) hat)))).mono fun _ _ _ => trivial)
  obtain ⟨hmax, hstuck⟩ : (self.connectRetryPolicy.maxAttempts.any fun n => n ≤ (i + 1 : Int)) =
      false ∧ self.connectRetryPolicy.stuck (i + 2) = false := by
    simpa [givesUp, add_assoc] using h
  obtain ⟨delay, hdelay, -⟩ :=
    RetryPolicy.pause_of_not_stuck hstuck self.connectRetryPolicy.jitter
  refine ⟨{ t with pc := .retrySleep (i + 1) (t.clock + delay) },
    hreach.snoc (a := .io false false self.connectRetryPolicy.jitter) trivial ?_, ?_⟩
  · simp [machine, step, io, RetryPolicy.draws_jitter hs, retryFailed, hmax, hdelay, add_assoc]
  · rw [RetryPolicy.delay_of_pause hdelay]

/-- `process_data_events` that raises lets the loop sleep after each failure that it
survives. -/
theorem exists_sleep (hs : self.loopRetryPolicy.Sane) {i : Nat}
    (h : self.loopRetryPolicy.stuck (i + 2) = false) :
    ∃ s, (machine self).Reach Machine.anyStep s ∧ s.pc = .sleep
      (s.clock + self.loopRetryPolicy.exactDelay self.loopRetryPolicy.jitter (i + 2)) := by
  have hnext : ∀ m, m < i → afterPump self m = some (m + 1) := fun m hm =>
    afterPump_of_afterFailure (if_neg (by simp [RetryPolicy.not_stuck_mono hs hm.le h]))
  obtain ⟨s, hrun, hhead⟩ := Machine.exists_rounds AtHead id
    (fun i j s k hs hj => exists_failure hs hj) atHead_atHead hnext
  obtain ⟨t, ht, hpc, hfail, hstop⟩ := exists_failed self (k := 0) hhead
  obtain ⟨u, hu, hpc, hstop, hsame, -⟩ := failing_lets.exists_backoff ht hpc hstop
  have hreach : (machine self).Reach Machine.anyStep u :=
    (atHead_reach self).trans ((hrun.trans (Machine.Path.of_counting hu)).mono
      fun _ _ _ => trivial)
  obtain ⟨delay, hdelay, -⟩ := RetryPolicy.pause_of_not_stuck h self.loopRetryPolicy.jitter
  refine ⟨{ u with
      loopFailures := i + 1
      stats := u.stats.incReconnectAttempts
      pc := .sleep (u.clock + delay) },
    hreach.snoc (a := .io false false self.loopRetryPolicy.jitter) trivial ?_, ?_⟩
  · simp [machine, step, io, hpc, RetryPolicy.draws_jitter hs, backoff, hsame, hfail, add_assoc,
      hdelay]
  · rw [RetryPolicy.delay_of_pause hdelay]

/-- In every run, `sync_retry` inside `run` never sleeps longer than `max_delay`. -/
def ConnectRests (config : Config) : Prop :=
  ∀ s, (machine config).Reach Machine.anyStep s → ∀ attempt until_,
    s.pc = .retrySleep attempt until_ → until_ ≤ s.clock + config.connectRetryPolicy.maxDelay

/-- In every run, `run` itself never sleeps longer than `max_delay`. -/
def LoopRests (config : Config) : Prop :=
  ∀ s, (machine config).Reach Machine.anyStep s → ∀ until_, s.pc = .sleep until_ →
    until_ ≤ s.clock + config.loopRetryPolicy.maxDelay

theorem connectRests_iff (hs : self.connectRetryPolicy.Sane) : ConnectRests self ↔
    ∀ i, givesUp self (i + 1) = false → self.connectRetryPolicy.Caps i := by
  refine ⟨fun h i hi => ?_, fun h s hreach => (rests_of_reach hreach).connect hs h⟩
  obtain ⟨s, hreach, hpc⟩ := exists_retrySleep hs hi
  exact RetryPolicy.caps_of_le hs ((add_le_add_iff_left _).mp (h s hreach _ _ hpc))

theorem loopRests_iff (hs : self.loopRetryPolicy.Sane) : LoopRests self ↔
    ∀ i : Nat, self.loopRetryPolicy.stuck (i + 2) = false → self.loopRetryPolicy.Caps i := by
  refine ⟨fun h i hi => ?_, fun h s hreach => (rests_of_reach hreach).loop hs h⟩
  obtain ⟨s, hreach, hpc⟩ := exists_sleep hs hi
  exact RetryPolicy.caps_of_le hs ((add_le_add_iff_left _).mp (h s hreach _ hpc))

end ListenerLoop

/-! ## `SyncPublishBackend._run` -/

namespace PublishBackend

variable {self : Config} {s t : PublishBackend}

/-- The thread sleeps no longer than its policy says. -/
def Rests (config : Config) (s : PublishBackend) : Prop :=
  ∀ th until_, s.thread = some th → th.pc = .sleep until_ →
    until_ ≤ s.clock + config.reconnectRetryPolicy.maxDelay

theorem rests_step {a : Action} (hs : self.reconnectRetryPolicy.Sane)
    (hcaps : ∀ i : Nat, self.reconnectRetryPolicy.stuck (i + 2) = false →
      self.reconnectRetryPolicy.Caps i)
    (hr : Rests self s) (h : s.step self a = some t) : Rests self t := by
  intro th' until_ hth' hpc
  obtain ⟨raises, draw, th, rfl, -, h⟩ | ⟨rfl, -, rfl⟩ | ⟨-, ha⟩ := thread_cases h
  · have hsource := source_of_io h hth'
    rw [hpc] at hsource
    obtain ⟨hdraw, delay, hdelay, rfl⟩ := hsource
    rw [RetryPolicy.delay_of_pause hdelay, add_le_add_iff_left]
    exact (hcaps _ (RetryPolicy.not_stuck_of_pause hdelay)).le hs hdraw
  · obtain rfl := Option.some.inj hth'
    cases hpc
  · exact (hr th' until_ (ha.thread ▸ hth') hpc).trans (add_le_add_left ha.clock _)

theorem exists_atHead (self : Config) : ∃ s, (machine self).Reach Machine.anyStep s ∧ AtHead 0 s :=
  ⟨_, ((Machine.Reach.init.snoc (a := .callStart) trivial rfl).snoc (a := .start) trivial
      rfl).snoc (a := .start) trivial rfl, ⟨_, rfl, rfl, rfl⟩, rfl, rfl⟩

/-- A connection factory that raises lets the thread sleep after each failure that it
survives. -/
theorem exists_sleep (hs : self.reconnectRetryPolicy.Sane) {i : Nat}
    (h : self.reconnectRetryPolicy.stuck (i + 2) = false) :
    ∃ s th, (machine self).Reach Machine.anyStep s ∧ s.thread = some th ∧ th.pc = .sleep (s.clock +
      self.reconnectRetryPolicy.exactDelay self.reconnectRetryPolicy.jitter (i + 2)) := by
  obtain ⟨s, hreach, hhead⟩ := exists_atHead self
  have hnext : ∀ m, m < i → self.reconnectRetryPolicy.afterFailure m = some (m + 1) := fun m hm =>
    if_neg (by simp [RetryPolicy.not_stuck_mono hs hm.le h])
  obtain ⟨t, hrun, hhead⟩ := Machine.exists_rounds AtHead id
    (fun i j s k hs hj => exists_round hs hj) hhead hnext
  obtain ⟨th, -, ht⟩ := exists_connect self (k := 0) hhead
  have hreach : (machine self).Reach Machine.anyStep { t with thread := some { th with
      pc := .handler } } :=
    hreach.trans ((hrun.trans (Machine.Path.of_counting ht)).mono fun _ _ _ => trivial)
  obtain ⟨delay, hdelay, -⟩ := RetryPolicy.pause_of_not_stuck h self.reconnectRetryPolicy.jitter
  refine ⟨{ t with
      reconnectFailures := i + 1
      stats := t.stats.incReconnectAttempts
      thread := some { th with pc := .sleep (t.clock + delay) } }, _,
    hreach.snoc (a := .io false self.reconnectRetryPolicy.jitter) trivial ?_, rfl, ?_⟩
  · simp [machine, step, io, handler, goto, RetryPolicy.draws_jitter hs, hhead.failures, add_assoc,
      hdelay]
  · rw [RetryPolicy.delay_of_pause hdelay]

/-- In every run, the thread never sleeps longer than `max_delay`. -/
def RunRests (config : Config) : Prop :=
  ∀ s, (machine config).Reach Machine.anyStep s → Rests config s

theorem runRests_iff (hs : self.reconnectRetryPolicy.Sane) : RunRests self ↔
    ∀ i : Nat, self.reconnectRetryPolicy.stuck (i + 2) = false →
      self.reconnectRetryPolicy.Caps i := by
  constructor
  · intro h i hi
    obtain ⟨s, th, hreach, hth, hpc⟩ := exists_sleep hs hi
    exact RetryPolicy.caps_of_le hs ((add_le_add_iff_left _).mp (h s hreach th _ hth hpc))
  · exact fun hcaps s hreach => hreach.invariant nofun fun _ _ _ _ _ hr h =>
      rests_step hs hcaps hr h

end PublishBackend

/-! ## All of them -/

/-- **When `max_delay` bounds what is slept.**  A delay is between zero and `max_delay`,
and zero for the first attempt, exactly when there is no jitter or the draw leaves it
so.  So all delays of a policy are only without jitter; the sleeps of a loop are at most
`max_delay` exactly when jitter is zero or fits above the pauses that the loop takes. -/
theorem maxDelay_bounds_iff {policy : RetryPolicy} (hs : policy.Sane) :
    (∀ attempt draw, policy.InBounds attempt draw ↔ policy.Fits attempt draw) ∧
    ((∀ attempt draw, policy.draws draw = true → policy.InBounds attempt draw) ↔
      policy.jitter = 0) ∧
    (∀ (α : Type) {ε : Type} (_ : ε),
      (Retry.SyncRests policy α ε ↔ ∀ i, policy.exhausted (i + 1) = false → policy.Caps i) ∧
      (Retry.AsyncRests policy α ε ↔ ∀ i, policy.exhausted (i + 1) = false → policy.Caps i)) ∧
    (∀ loop : RetryPolicy, ListenerLoop.ConnectRests ⟨policy, loop⟩ ↔
      ∀ i, ListenerLoop.givesUp ⟨policy, loop⟩ (i + 1) = false → policy.Caps i) ∧
    (∀ connect : RetryPolicy, ListenerLoop.LoopRests ⟨connect, policy⟩ ↔
      ∀ i : Nat, policy.stuck (i + 2) = false → policy.Caps i) ∧
    (∀ self : PublishBackend.Config, self.reconnectRetryPolicy = policy →
      (PublishBackend.RunRests self ↔
        ∀ i : Nat, policy.stuck (i + 2) = false → policy.Caps i)) := by
  refine ⟨RetryPolicy.inBounds_iff hs, RetryPolicy.inBounds_all_iff hs,
    fun α _ e => Retry.rests_iff hs α e, fun loop => ListenerLoop.connectRests_iff hs,
    fun connect => ListenerLoop.loopRests_iff hs, ?_⟩
  rintro self rfl
  exact PublishBackend.runRests_iff hs

/-- The policy of the loops without its jitter. -/
def steadyPolicy : RetryPolicy := { loopRetryPolicy with jitter := 0 }

/-- Without jitter nothing is slept for longer than ten seconds. -/
theorem maxDelay_bounds_steady :
    (∀ attempt draw, steadyPolicy.draws draw = true → steadyPolicy.InBounds attempt draw) ∧
    Retry.SyncRests steadyPolicy Nat String ∧ Retry.AsyncRests steadyPolicy Nat String ∧
    ListenerLoop.ConnectRests ⟨steadyPolicy, steadyPolicy⟩ ∧
    ListenerLoop.LoopRests ⟨steadyPolicy, steadyPolicy⟩ ∧
    PublishBackend.RunRests (PublishBackend.withPolicy steadyPolicy) := by
  have hs : steadyPolicy.Sane := { loopRetryPolicy_sane with jitter := le_refl 0 }
  obtain ⟨-, hall, hretry, hconnect, hloop, hrun⟩ := maxDelay_bounds_iff hs
  have hcaps : ∀ i, steadyPolicy.Caps i := fun i => .inl rfl
  exact ⟨hall.mpr rfl, (hretry Nat "").1.mpr fun i _ => hcaps i,
    (hretry Nat "").2.mpr fun i _ => hcaps i, (hconnect _).mpr fun i _ => hcaps i,
    (hloop _).mpr fun i _ => hcaps i, (hrun _ rfl).mpr fun i _ => hcaps i⟩

/-- **The jitter is added after the minimum is taken.**  With the policy that the backend
and the listener have by default, the first attempt can be delayed by a quarter of a
second, the seventh by more than ten, and the loops sleep that long. -/
theorem maxDelay_exceeded :
    loopRetryPolicy.draws (1 / 4) = true ∧
    loopRetryPolicy.delayForAttempt 1 (1 / 4) = .ok (1 / 4) ∧
    loopRetryPolicy.delayForAttempt 7 (1 / 4) = .ok (41 / 4) ∧
    loopRetryPolicy.maxDelay < 41 / 4 ∧
    ¬ Retry.SyncRests loopRetryPolicy Nat String ∧
    ¬ Retry.AsyncRests loopRetryPolicy Nat String ∧
    ¬ ListenerLoop.LoopRests ⟨connectRetryPolicy, loopRetryPolicy⟩ ∧
    ¬ PublishBackend.RunRests PublishBackend.defaultConfig := by
  have hcaps : ¬ loopRetryPolicy.Caps 5 := by norm_num [RetryPolicy.Caps, loopRetryPolicy]
  have hstuck : loopRetryPolicy.stuck ((5 : Nat) + 2) = false := by decide +kernel
  refine ⟨by decide +kernel, by decide +kernel, by decide +kernel, by decide +kernel,
    fun h => ?_, fun h => ?_, fun h => ?_, fun h => ?_⟩
  · exact hcaps ((Retry.rests_iff loopRetryPolicy_sane Nat "").1.mp h 5 rfl)
  · exact hcaps ((Retry.rests_iff loopRetryPolicy_sane Nat "").2.mp h 5 rfl)
  · exact hcaps ((ListenerLoop.loopRests_iff loopRetryPolicy_sane).mp h 5 hstuck)
  · exact hcaps ((PublishBackend.runRests_iff loopRetryPolicy_sane).mp h 5 hstuck)

end MqAdapters
