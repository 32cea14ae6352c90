import Mathlib.Data.List.Count

/-!
# A counting semaphore with a queue of waiters

A `Semaphore ι` has permits and a queue of waiters in `ι`, each with a mark that
says whether it has been woken.  Waking a waiter takes a permit out of `value`;
the waiter holds it from when it goes on.

* `free`: the permits that nobody holds, those of woken waiters included.  Each
  operation changes it by what it gives or takes.
* `Prompt`: a permit stays available while somebody waits only if a waiter is
  woken, who wakes the others when it goes on.
* `Idle`: nobody is woken and nobody can be.  Only a release changes that.
-/

namespace Theory

universe u

structure Semaphore (ι : Type u) where
  value : Nat
  waiters : List (ι × Bool)

namespace Semaphore

variable {ι : Type u}

/-- Wake the first waiters that are not woken, at most `n`; the permits that are
left and the queue. -/
def wake (n : Nat) : List (ι × Bool) → Nat × List (ι × Bool)
  | [] => (n, [])
  | (i, woken) :: ws =>
    if woken || n == 0 then ((wake n ws).1, (i, woken) :: (wake n ws).2)
    else ((wake (n - 1) ws).1, (i, true) :: (wake (n - 1) ws).2)

/-- A new waiter has to queue. -/
def locked (s : Semaphore ι) : Bool := s.value == 0 || !s.waiters.isEmpty

/-- A permit is taken without waiting. -/
def take (s : Semaphore ι) : Semaphore ι := { s with value := s.value - 1 }

def park (s : Semaphore ι) (i : ι) : Semaphore ι := { s with waiters := s.waiters ++ [(i, false)] }

/-- A permit comes back, and one waiter is woken. -/
def release (s : Semaphore ι) : Semaphore ι :=
  ⟨s.value + (wake 1 s.waiters).1, (wake 1 s.waiters).2⟩

/-- As many waiters are woken as there are permits. -/
def wakeAll (s : Semaphore ι) : Semaphore ι :=
  ⟨(wake s.value s.waiters).1, (wake s.value s.waiters).2⟩

section

variable [DecidableEq ι]

/-- The waiter `i` has been woken. -/
def woken (s : Semaphore ι) (i : ι) : Bool := s.waiters.contains (i, true)

/-- A waiter that is not woken is cancelled. -/
def drop (s : Semaphore ι) (i : ι) : Semaphore ι :=
  { s with waiters := s.waiters.erase (i, false) }

/-- A woken waiter goes on with its permit. -/
def resume (s : Semaphore ι) (i : ι) : Semaphore ι :=
  wakeAll { s with waiters := s.waiters.erase (i, true) }

/-- A woken waiter that was cancelled goes on without its permit. -/
def giveBack (s : Semaphore ι) (i : ι) : Semaphore ι :=
  wakeAll ⟨s.value + 1, s.waiters.erase (i, true)⟩

end

/-! ## Permits that nobody holds -/

/-- The permits that nobody holds. -/
def free (s : Semaphore ι) : Nat := s.value + s.waiters.countP (·.2)

theorem wake_free (n : Nat) (ws : List (ι × Bool)) :
    (wake n ws).1 + (wake n ws).2.countP (·.2) = n + ws.countP (·.2) := by
  induction ws generalizing n with
  | nil => rfl
  | cons w ws ih =>
    obtain ⟨i, woken⟩ := w
    unfold wake
    cases woken with
    | true =>
      have := ih n
      simp only [Bool.true_or, if_true, List.countP_cons_of_pos]
      omega
    | false =>
      cases n with
      | zero => simpa using ih 0
      | succ n =>
        have := ih n
        simp at this ⊢
        omega

theorem free_take {s : Semaphore ι} (h : s.locked = false) : s.take.free + 1 = s.free := by
  have hpos : s.value ≠ 0 := by
    intro h0
    simp [locked, h0] at h
  unfold take free
  dsimp only
  omega

@[simp] theorem free_park (s : Semaphore ι) (i : ι) : (s.park i).free = s.free := by
  simp [park, free]

@[simp] theorem free_release (s : Semaphore ι) : s.release.free = s.free + 1 := by
  have := wake_free 1 s.waiters
  unfold release free
  dsimp only
  omega

@[simp] theorem free_wakeAll (s : Semaphore ι) : s.wakeAll.free = s.free :=
  wake_free s.value s.waiters

section

variable [DecidableEq ι] {s : Semaphore ι} {i : ι}

@[simp] theorem free_drop (s : Semaphore ι) (i : ι) : (s.drop i).free = s.free := by
  unfold drop free
  dsimp only
  rw [List.countP_erase]
  simp

theorem countP_erase_woken (h : s.woken i = true) :
    (s.waiters.erase (i, true)).countP (·.2) + 1 = s.waiters.countP (·.2) := by
  have hmem : (i, true) ∈ s.waiters := by simpa [woken] using h
  have hpos : 0 < s.waiters.countP (·.2) := List.countP_pos_iff.mpr ⟨_, hmem, rfl⟩
  rw [List.countP_erase]
  simp only [hmem, and_self, if_true]
  omega

theorem free_resume (h : s.woken i = true) : (s.resume i).free + 1 = s.free := by
  have := countP_erase_woken h
  unfold resume
  rw [free_wakeAll]
  unfold free
  dsimp only
  omega

theorem free_giveBack (h : s.woken i = true) : (s.giveBack i).free = s.free := by
  have := countP_erase_woken h
  unfold giveBack
  rw [free_wakeAll]
  unfold free
  dsimp only
  omega

end

/-! ## Waiters that are woken in time -/

/-- If a permit is available while somebody waits, a waiter has been woken. -/
def Prompt (s : Semaphore ι) : Prop := 0 < s.value → s.waiters ≠ [] → ∃ w ∈ s.waiters, w.2 = true

theorem wake_zero (ws : List (ι × Bool)) : wake 0 ws = (0, ws) := by
  induction ws with
  | nil => rfl
  | cons w ws ih => simp [wake, ih]

/-- With a permit to give, a waiter is woken. -/
theorem exists_woken {n : Nat} (hn : 0 < n) {ws : List (ι × Bool)} (h : (wake n ws).2 ≠ []) :
    ∃ w ∈ (wake n ws).2, w.2 = true := by
  cases ws with
  | nil => exact absurd rfl h
  | cons w ws =>
    obtain ⟨i, woken⟩ := w
    refine ⟨(i, true), ?_, rfl⟩
    unfold wake
    cases woken with
    | true => simp
    | false => simp [Nat.ne_of_gt hn]

theorem prompt_wakeAll (s : Semaphore ι) : s.wakeAll.Prompt := by
  intro hpos hne
  refine exists_woken (Nat.pos_of_ne_zero ?_) hne
  intro h0
  simp [wakeAll, h0, wake_zero] at hpos

theorem prompt_release (s : Semaphore ι) : s.release.Prompt := fun _ hne =>
  exists_woken Nat.one_pos hne

theorem prompt_new (n : Nat) : (⟨n, []⟩ : Semaphore ι).Prompt := fun _ hne => absurd rfl hne

theorem prompt_take {s : Semaphore ι} (h : s.locked = false) : s.take.Prompt := by
  intro _ hne
  simp only [locked, Bool.or_eq_false_iff, Bool.not_eq_false', List.isEmpty_iff] at h
  exact absurd h.2 hne

theorem Prompt.park {s : Semaphore ι} (h : s.Prompt) (hl : s.locked = true) (i : ι) :
    (s.park i).Prompt := by
  intro hpos _
  have hne : s.waiters ≠ [] := by
    intro hnil
    have hpos : 0 < s.value := hpos
    simp [locked, hnil, Nat.ne_of_gt hpos] at hl
  obtain ⟨w, hw, hwoken⟩ := h hpos hne
  exact ⟨w, List.mem_append_left _ hw, hwoken⟩

/-- Nobody is woken, and nobody can be before a release. -/
structure Idle (s : Semaphore ι) : Prop where
  asleep : ∀ w ∈ s.waiters, w.2 = false
  stuck : s.value = 0 ∨ s.waiters = []

theorem Prompt.idle {s : Semaphore ι} (h : s.Prompt) (ha : ∀ w ∈ s.waiters, w.2 = false) :
    s.Idle := by
  refine ⟨ha, ?_⟩
  by_contra hn
  obtain ⟨hv, hw⟩ := not_or.mp hn
  obtain ⟨w, hw, hwoken⟩ := h (Nat.pos_of_ne_zero hv) hw
  rw [ha w hw] at hwoken
  cases hwoken

theorem Idle.wakeAll_eq {s : Semaphore ι} (h : s.Idle) : s.wakeAll = s := by
  obtain ⟨value, waiters⟩ := s
  rcases h.stuck with hv | hw
  · obtain rfl : value = 0 := hv
    simp [wakeAll, wake_zero]
  · obtain rfl : waiters = [] := hw
    rfl

section

variable [DecidableEq ι] {s : Semaphore ι} {i : ι}

theorem Prompt.drop (h : s.Prompt) (i : ι) : (s.drop i).Prompt := by
  intro hpos hne
  obtain ⟨w, hw, hwoken⟩ := h hpos fun hnil => hne (by simp [Semaphore.drop, hnil])
  refine ⟨w, (List.mem_erase_of_ne ?_).mpr hw, hwoken⟩
  rintro rfl
  cases hwoken

theorem Idle.drop (h : s.Idle) (i : ι) : (s.drop i).Idle := by
  refine ⟨fun w hw => h.asleep w (List.mem_of_mem_erase hw), h.stuck.imp_right ?_⟩
  intro hw
  simp [Semaphore.drop, hw]

theorem Idle.not_woken (h : s.Idle) : s.woken i = false := by
  by_contra hw
  have hmem : (i, true) ∈ s.waiters := by simpa [woken] using hw
  cases h.asleep _ hmem

end

end Semaphore

end Theory
