import Mathlib.Data.List.Basic
import MqAdapters.Theory.Machine

/-!
# One consumer behind a queue, with a stop flag and a sentinel

A `Consumer α` takes items of type `α` from a first-in first-out queue and
passes them on, one at a time.  It is told to stop in two ways: a flag that it
looks at between two items, and a sentinel in the queue.  It may fail before it
takes an item or while it passes one on, and then starts over.

* `accounted_step`: nothing is lost or invented between the queue and the
  consumer: what was accepted is what was passed, what is in hand and what is
  queued.
* `reach s` is the number of items that are passed before the consumer leaves,
  once the flag is up.  `reach_le`: it never goes down; `reach_eq`: it does not
  change either while an item is queued.
* `Sound s`: the consumer is running and nothing tells it to stop;
  `sound_step` says that only a new request to stop, or a crash, changes that.
-/

namespace Theory

universe u

/-- Where a consumer is. -/
inductive Phase (α : Type u)
  /-- it does not run -/
  | out
  /-- it looks at the flag next -/
  | head
  /-- it takes an item next -/
  | taking
  | holding (a : α)
  /-- it has taken the sentinel -/
  | woken
  /-- it has failed and starts over next -/
  | failed

/-- The items in hand. -/
def Phase.held {α : Type u} : Phase α → List α
  | .holding a => [a]
  | _ => []

structure Consumer (α : Type u) where
  queue : List (Option α)
  flag : Bool
  phase : Phase α
  /-- the items put into the queue, in order -/
  accepted : List α
  /-- the items passed on, in order -/
  passed : List α

namespace Consumer

variable {α : Type u}

inductive Move (α : Type u)
  | put (a : α)
  | wake
  | raise
  | clear
  | spawn
  | look
  | take
  | skip
  | leave
  | pass (ok : Bool)
  | fail
  | recover
  | crash

def step (s : Consumer α) : Move α → Option (Consumer α)
  | .put a => some { s with queue := s.queue ++ [some a], accepted := s.accepted ++ [a] }
  | .wake => some { s with queue := s.queue ++ [none] }
  | .raise => some { s with flag := true }
  | .clear => match s.phase with
    | .out => some { s with flag := false }
    | _ => none
  | .spawn => match s.phase with
    | .out => some { s with phase := .head }
    | _ => none
  | .look => match s.phase with
    | .head => some { s with phase := if s.flag then .out else .taking }
    | _ => none
  | .take => match s.phase, s.queue with
    | .taking, some a :: q => some { s with queue := q, phase := .holding a }
    | .taking, none :: q => some { s with queue := q, phase := .woken }
    | _, _ => none
  | .skip => match s.phase, s.queue with
    | .taking, [] => some { s with phase := .head }
    | _, _ => none
  | .leave => match s.phase with
    | .woken => some { s with phase := .out }
    | _ => none
  | .pass ok => match s.phase with
    | .holding a => some { s with
        phase := if ok then .head else .failed
        passed := s.passed ++ [a] }
    | _ => none
  | .fail => match s.phase with
    | .taking => some { s with phase := .failed }
    | _ => none
  | .recover => match s.phase with
    | .failed => some { s with phase := .head }
    | _ => none
  | .crash => match s.phase with
    | .failed => some { s with phase := .out }
    | _ => none

/-- A consumer that does not run, with nothing queued. -/
def machine (α : Type u) : Machine (Consumer α) (Move α) where
  init := ⟨[], false, .out, [], []⟩
  step := step

@[simp] theorem machine_step : (machine α).step = step := rfl

/-- The phase after an item of the queue was taken. -/
def taken : Option α → Phase α
  | some a => .holding a
  | none => .woken

/-- What each move does, and when. -/
theorem step_cases {s t : Consumer α} {m : Move α} (h : s.step m = some t) :
    match m with
    | .put a => t = { s with queue := s.queue ++ [some a], accepted := s.accepted ++ [a] }
    | .wake => t = { s with queue := s.queue ++ [none] }
    | .raise => t = { s with flag := true }
    | .clear => s.phase = .out ∧ t = { s with flag := false }
    | .spawn => s.phase = .out ∧ t = { s with phase := .head }
    | .look => s.phase = .head ∧ t = { s with phase := if s.flag then .out else .taking }
    | .take => s.phase = .taking ∧ ∃ x q, s.queue = x :: q ∧
        t = { s with queue := q, phase := taken x }
    | .skip => s.phase = .taking ∧ s.queue = [] ∧ t = { s with phase := .head }
    | .leave => s.phase = .woken ∧ t = { s with phase := .out }
    | .pass ok => ∃ a, s.phase = .holding a ∧
        t = { s with phase := if ok then .head else .failed, passed := s.passed ++ [a] }
    | .fail => s.phase = .taking ∧ t = { s with phase := .failed }
    | .recover => s.phase = .failed ∧ t = { s with phase := .head }
    | .crash => s.phase = .failed ∧ t = { s with phase := .out } := by
  obtain ⟨q, f, p, acc, pas⟩ := s
  cases m with
  | put | wake | raise => exact (Option.some.inj h).symm
  | take =>
    cases p <;> rcases q with _ | ⟨_ | a, q⟩ <;> simp only [step, reduceCtorEq] at h
    all_goals exact ⟨rfl, _, _, rfl, (Option.some.inj h).symm⟩
  | skip =>
    cases p <;> rcases q with _ | ⟨x, q⟩ <;> simp only [step, reduceCtorEq] at h
    exact ⟨rfl, rfl, (Option.some.inj h).symm⟩
  | pass ok =>
    cases p <;> simp only [step, reduceCtorEq] at h
    exact ⟨_, rfl, (Option.some.inj h).symm⟩
  | _ =>
    cases p <;> simp only [step, reduceCtorEq] at h
    exact ⟨rfl, (Option.some.inj h).symm⟩

/-- The items that are queued. -/
def items (q : List (Option α)) : List α := q.filterMap id

@[simp] theorem items_nil : items ([] : List (Option α)) = [] := rfl

@[simp] theorem items_some (a : α) (q : List (Option α)) : items (some a :: q) = a :: items q := rfl

@[simp] theorem items_none (q : List (Option α)) : items (none :: q) = items q := rfl

@[simp] theorem items_append (q r : List (Option α)) : items (q ++ r) = items q ++ items r :=
  List.filterMap_append

/-- A consumer leaves because the flag is up, or because it took the sentinel,
unless it crashes. -/
theorem asked_of_leaves {s t : Consumer α} {m : Move α} (h : s.step m = some t)
    (hm : m ≠ .crash) (hs : s.phase ≠ .out) (ht : t.phase = .out) :
    s.flag = true ∨ s.phase = .woken := by
  have hc := step_cases h
  cases m with
  | crash => exact absurd rfl hm
  | put | wake | raise => obtain rfl : t = _ := hc; exact absurd ht hs
  | clear | spawn => exact absurd hc.1 hs
  | look =>
    obtain ⟨-, rfl⟩ := hc
    refine .inl ?_
    by_contra hf
    exact absurd ht (by simp [hf])
  | take =>
    obtain ⟨-, x, q, -, rfl⟩ := hc
    cases x <;> cases ht
  | leave => exact .inr hc.1
  | pass ok =>
    obtain ⟨a, -, rfl⟩ := hc
    cases ok <;> cases ht
  | skip => obtain ⟨-, -, rfl⟩ := hc; cases ht
  | fail | recover => obtain ⟨-, rfl⟩ := hc; cases ht

/-- With the flag up, a consumer that takes an item next did so before, and nothing
has left the queue. -/
theorem taking_of_flag {s t : Consumer α} {m : Move α} (h : s.step m = some t)
    (hf : s.flag = true) (ht : t.phase = .taking) :
    s.phase = .taking ∧ s.queue <+: t.queue := by
  have hc := step_cases h
  cases m with
  | put | wake => obtain rfl : t = _ := hc; exact ⟨ht, List.prefix_append _ _⟩
  | raise => obtain rfl : t = _ := hc; exact ⟨ht, List.prefix_rfl⟩
  | clear =>
    obtain ⟨hout, rfl⟩ := hc
    exact absurd (hout.symm.trans ht) (by simp)
  | look =>
    obtain ⟨-, rfl⟩ := hc
    exact absurd ht (by simp [hf])
  | take =>
    obtain ⟨-, x, q, -, rfl⟩ := hc
    cases x <;> cases ht
  | pass ok =>
    obtain ⟨a, -, rfl⟩ := hc
    cases ok <;> cases ht
  | skip => obtain ⟨-, -, rfl⟩ := hc; cases ht
  | spawn | leave | fail | recover | crash => obtain ⟨-, rfl⟩ := hc; cases ht

/-! ## Nothing is lost -/

/-- What was accepted is passed, in hand or queued, in this order. -/
def Accounted (s : Consumer α) : Prop := s.accepted = s.passed ++ s.phase.held ++ items s.queue

theorem accounted_step {s t : Consumer α} {m : Move α} (h : s.step m = some t)
    (hs : Accounted s) : Accounted t := by
  have hc := step_cases h
  unfold Accounted at hs ⊢
  cases m with
  | put | wake | raise => obtain rfl : t = _ := hc; simp [hs]
  | look =>
    obtain ⟨hp, rfl⟩ := hc
    cases hf : s.flag <;> simpa [hf, hp, Phase.held] using hs
  | take =>
    obtain ⟨hp, x, q, hq, rfl⟩ := hc
    cases x <;> simpa [hp, hq, taken, Phase.held] using hs
  | skip =>
    obtain ⟨hp, hq, rfl⟩ := hc
    simpa [hp, hq, Phase.held] using hs
  | pass ok =>
    obtain ⟨a, hp, rfl⟩ := hc
    cases ok <;> simpa [hp, Phase.held] using hs
  | _ =>
    obtain ⟨hp, rfl⟩ := hc
    simpa [hp, Phase.held] using hs

theorem accounted_path {c : Consumer α → Move α → Prop} {s t : Consumer α}
    (h : (machine α).Path c s t) (hs : Accounted s) : Accounted t :=
  h.invariant hs fun _ _ _ _ hs ht => accounted_step ht hs

/-! ## How far a consumer gets once the flag is up -/

/-- One more item is passed if the consumer is about to take one and an item,
not the sentinel, is next. -/
def next : List (Option α) → Nat
  | some _ :: _ => 1
  | _ => 0

/-- The number of items passed before the consumer leaves. -/
def reach (s : Consumer α) : Nat :=
  s.passed.length + match s.phase with
    | .holding _ => 1
    | .taking => next s.queue
    | _ => 0

theorem next_append {q : List (Option α)} (r : List (Option α)) (hq : q ≠ []) :
    next (q ++ r) = next q := by
  rcases q with _ | ⟨_ | a, q⟩
  · exact absurd rfl hq
  · rfl
  · rfl

theorem next_le_append (q r : List (Option α)) : next q ≤ next (q ++ r) := by
  by_cases hq : q = []
  · rw [hq]; exact Nat.zero_le _
  · exact Nat.le_of_eq (next_append r hq).symm

/-- More in the queue takes the consumer no less far, and no further if it had
something to take. -/
theorem reach_append {s : Consumer α} {r : List (Option α)} {acc : List α} :
    s.reach ≤ reach { s with queue := s.queue ++ r, accepted := acc } ∧
      (items s.queue ≠ [] →
        reach { s with queue := s.queue ++ r, accepted := acc } = s.reach) := by
  cases hp : s.phase with
  | taking =>
    have hle := next_le_append s.queue r
    refine ⟨by simp only [reach, hp]; omega, fun hq => ?_⟩
    have hne : s.queue ≠ [] := fun h => hq (by rw [h]; rfl)
    simp only [reach, hp, next_append r hne]
  | _ => simp [reach, hp]

/-- The moves of a consumer that is left to run out: it is not started anew, and
it does not fail before it has taken an item. -/
def Outgoing : Move α → Prop
  | .clear => False
  | .spawn => False
  | .fail => False
  | _ => True

/-- One move, once the flag is up. -/
theorem reach_step {s t : Consumer α} {m : Move α} (h : s.step m = some t) (hm : Outgoing m)
    (hf : s.flag = true) :
    t.flag = true ∧ s.reach ≤ t.reach ∧ (items s.queue ≠ [] → t.reach = s.reach) := by
  have hc := step_cases h
  cases m with
  | clear | spawn | fail => exact absurd hm id
  | put a =>
    obtain rfl : t = _ := hc
    exact ⟨hf, reach_append⟩
  | wake =>
    obtain rfl : t = _ := hc
    exact ⟨hf, reach_append⟩
  | raise => obtain rfl : t = _ := hc; simp [reach]
  | look =>
    obtain ⟨hp, rfl⟩ := hc
    simp [reach, hf, hp]
  | take =>
    obtain ⟨hp, x, q, hq, rfl⟩ := hc
    cases x <;> simp [reach, next, taken, hp, hq, hf]
  | skip =>
    obtain ⟨hp, hq, rfl⟩ := hc
    simp [reach, next, hp, hq, hf]
  | pass ok =>
    obtain ⟨a, hp, rfl⟩ := hc
    cases ok <;> simp [reach, hp, hf]
  | _ =>
    obtain ⟨hp, rfl⟩ := hc
    simp [reach, hp, hf]

/-- What is accepted only grows. -/
theorem accepted_step {s t : Consumer α} {m : Move α} (h : s.step m = some t) :
    s.accepted <+: t.accepted := by
  have hc := step_cases h
  cases m with
  | put a => obtain rfl : t = _ := hc; exact List.prefix_append _ _
  | wake | raise => obtain rfl : t = _ := hc; exact List.prefix_rfl
  | take => obtain ⟨-, x, q, -, rfl⟩ := hc; exact List.prefix_rfl
  | skip => obtain ⟨-, -, rfl⟩ := hc; exact List.prefix_rfl
  | pass ok => obtain ⟨a, -, rfl⟩ := hc; exact List.prefix_rfl
  | _ => obtain ⟨-, rfl⟩ := hc; exact List.prefix_rfl

/-- What is within reach when the flag goes up stays within reach. -/
theorem reach_le {s t : Consumer α} (h : (machine α).Path (fun _ m => Outgoing m) s t)
    (hf : s.flag = true) : s.reach ≤ t.reach := by
  suffices t.flag = true ∧ s.reach ≤ t.reach from this.2
  refine h.invariant (P := fun t => t.flag = true ∧ s.reach ≤ t.reach) ⟨hf, Nat.le_refl _⟩ ?_
  rintro t m u hm ⟨hft, hle⟩ hu
  obtain ⟨hfu, hle', -⟩ := reach_step hu hm hft
  exact ⟨hfu, Nat.le_trans hle hle'⟩

/-- What is accepted but out of reach when the flag goes up stays so. -/
theorem reach_eq {s t : Consumer α} (h : (machine α).Path (fun _ m => Outgoing m) s t)
    (hf : s.flag = true) (ha : Accounted s) (hlt : s.reach < s.accepted.length) :
    t.reach = s.reach := by
  suffices t.flag = true ∧ Accounted t ∧ s.accepted <+: t.accepted ∧ t.reach = s.reach from
    this.2.2.2
  refine h.invariant (P := fun t => t.flag = true ∧ Accounted t ∧ s.accepted <+: t.accepted ∧
    t.reach = s.reach) ⟨hf, ha, List.prefix_rfl, rfl⟩ ?_
  rintro t m u hm ⟨hft, hat, hpre, heq⟩ hu
  obtain ⟨hfu, -, hkeep⟩ := reach_step hu hm hft
  refine ⟨hfu, accounted_step hu hat, hpre.trans (accepted_step hu), ?_⟩
  rw [← heq]
  refine hkeep fun hnone => ?_
  -- nothing queued: everything accepted would be within reach
  have hlen := congrArg List.length hat
  simp only [List.length_append, hnone, List.length_nil] at hlen
  have hheld : t.passed.length + t.phase.held.length ≤ t.reach := by
    unfold reach
    cases t.phase <;> simp [Phase.held]
  have := hpre.length_le
  omega

/-- **Once the flag is up, the first `n` accepted items have all been passed
when the consumer has left exactly when they were within reach.** -/
theorem passed_iff_le_reach {s t : Consumer α}
    (h : (machine α).Path (fun _ m => Outgoing m) s t) (hf : s.flag = true) (ha : Accounted s)
    (hout : t.phase = .out) {n : Nat} (hn : n ≤ s.accepted.length) :
    s.accepted.take n <+: t.passed ↔ n ≤ s.reach := by
  have hat := accounted_path h ha
  have hpre : s.accepted <+: t.accepted :=
    h.invariant (P := fun t => s.accepted <+: t.accepted) List.prefix_rfl
      fun _ _ _ _ hp hu => hp.trans (accepted_step hu)
  have hreach : t.reach = t.passed.length := by simp [reach, hout]
  have hlen : (s.accepted.take n).length = n := List.length_take_of_le hn
  have hpassed : t.passed <+: t.accepted := by
    rw [hat, hout]
    simp only [Phase.held, List.append_nil]
    exact List.prefix_append _ _
  constructor
  · intro hp
    by_contra hlt
    have := reach_eq h hf ha (by omega)
    have := hp.length_le
    omega
  · intro hle
    refine List.prefix_of_prefix_length_le ((List.take_prefix _ _).trans hpre) hpassed ?_
    have := reach_le h hf
    omega

/-! ## A consumer that is not told to stop -/

/-- The consumer runs, and neither the flag nor a sentinel tells it to stop. -/
def Sound (s : Consumer α) : Prop :=
  s.flag = false ∧ none ∉ s.queue ∧ s.phase ≠ .out ∧ s.phase ≠ .woken

/-- The moves that neither ask the consumer to stop nor make it crash. -/
def Quiet : Move α → Prop
  | .wake => False
  | .raise => False
  | .crash => False
  | _ => True

theorem sound_step {s t : Consumer α} {m : Move α} (h : s.step m = some t) (hm : Quiet m)
    (hs : Sound s) : Sound t := by
  have hc := step_cases h
  obtain ⟨hf, hq, ho, hw⟩ := hs
  cases m with
  | wake | raise | crash => exact absurd hm id
  | put a => obtain rfl : t = _ := hc; exact ⟨hf, by simpa using hq, ho, hw⟩
  | clear | spawn => exact absurd hc.1 ho
  | leave => exact absurd hc.1 hw
  | look =>
    obtain ⟨hp, rfl⟩ := hc
    exact ⟨hf, hq, by simp [hf], by simp [hf]⟩
  | take =>
    obtain ⟨hp, x, q, hq', rfl⟩ := hc
    rw [hq', List.mem_cons, not_or] at hq
    obtain ⟨a, rfl⟩ := Option.ne_none_iff_exists'.mp fun hx => hq.1 hx.symm
    exact ⟨hf, hq.2, by simp [taken], by simp [taken]⟩
  | skip =>
    obtain ⟨hp, hq', rfl⟩ := hc
    exact ⟨hf, hq, by simp, by simp⟩
  | pass ok =>
    obtain ⟨a, hp, rfl⟩ := hc
    cases ok <;> exact ⟨hf, hq, by simp, by simp⟩
  | fail | recover =>
    obtain ⟨hp, rfl⟩ := hc
    exact ⟨hf, hq, by simp, by simp⟩

end Consumer

end Theory
