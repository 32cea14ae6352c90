import MqAdapters.Listener.Attempts
import MqAdapters.Theory.Ranking

/-!
# The loop ends after a stop

Once `stop_me` is set, each step of `run` brings the loop closer to its end: no
failure, of the factory, the set-up, the pump or a pause, makes it go round again.

* `Pc.toEnd`: how many steps that takes at most.
* `leads_to_end`: the steps of `run` are paid for with it, whatever else happens.
* `exists_ended`: the loop can always take its next step, if need be after a sleep.
* `exists_idle`: so can `stop_listening`, which has no loop.
-/

namespace MqAdapters

open Theory

namespace ListenerLoop

variable {self : Config} {s t : ListenerLoop} {raises runs : Bool} {draw : ℚ}

/-- `run` has returned, or an exception has left it. -/
def Pc.ended : Pc → Bool
  | .exited | .escaped _ => true
  | _ => false

/-- How many steps of `run` are left at most, once `stop_me` is set. -/
def Pc.toEnd : Pc → Nat
  | .exited | .escaped _ => 0
  | .top => 1
  | .begin | .sleep _ | .handler _ => 2
  | .retry _ | .pump | .backoff _ => 3
  | .retrySleep _ _ | .clearConnection _ | .setup => 4
  | .retryFailed _ | .clearChannel _ | .openChannel => 5
  | .checkChannel | .closeConnection _ => 6
  | .checkConnection | .connecting _ | .closeChannel _ => 7

theorem Pc.toEnd_le (pc : Pc) : pc.toEnd ≤ 7 := by
  cases pc <;> simp [toEnd]

/-- A step of `run`. -/
def ofRun (_ : ListenerLoop) : Action → Bool
  | .io _ _ _ => true
  | _ => false

@[simp] theorem setup_stopMe : (s.setup raises).stopMe = s.stopMe := by
  cases raises <;> rfl

@[simp] theorem pump_stopMe : (s.pump runs raises).stopMe = s.stopMe := by
  cases runs <;> cases raises <;> simp [pump]

theorem pump_toEnd : (s.pump runs raises).pc.toEnd ≤ 2 := by
  cases raises <;> simp [pump, Pc.toEnd]

/-- **A step of `run` comes closer to the end**, wherever it is. -/
theorem io_toEnd (hstop : s.stopMe = true) (h : s.io self raises runs draw = some t) :
    t.stopMe = true ∧ t.pc.toEnd < s.pc.toEnd := by
  have hc := io_cases h
  cases hpc : s.pc <;> simp only [hpc] at hc
  case begin => obtain rfl := hc; exact ⟨hstop, by simp [Pc.toEnd]⟩
  case top | retry | handler =>
    rcases hc with ⟨-, rfl⟩ | ⟨hgoes, -⟩
    · exact ⟨hstop, by simp [Pc.toEnd]⟩
    · rw [hstop] at hgoes
      cases hgoes
  case checkConnection | connecting | checkChannel =>
    obtain ⟨-, rfl⟩ | ⟨-, rfl⟩ := hc <;> exact ⟨hstop, by simp [Pc.toEnd]⟩
  case retryFailed =>
    obtain ⟨-, rfl⟩ | ⟨-, ⟨_, -, rfl⟩ | ⟨_, -, rfl⟩⟩ := hc <;>
      exact ⟨hstop, by simp [Pc.toEnd]⟩
  case retrySleep | sleep => obtain ⟨-, rfl⟩ := hc; exact ⟨hstop, by simp [Pc.toEnd]⟩
  case openChannel =>
    obtain ⟨-, rfl⟩ | ⟨_, -, -, rfl⟩ := hc <;> exact ⟨hstop, by simp [Pc.toEnd]⟩
  case setup =>
    obtain ⟨-, rfl⟩ | ⟨-, rfl⟩ := hc
    · exact ⟨hstop, by simp [Pc.toEnd]⟩
    · exact ⟨by simp [hstop], by simp [setup, Pc.toEnd]⟩
  case pump =>
    obtain rfl := hc
    exact ⟨by simp [hstop], Nat.lt_of_le_of_lt pump_toEnd (by simp [Pc.toEnd])⟩
  case closeChannel | closeConnection =>
    obtain rfl := hc
    exact ⟨by simp [hstop], by simp [Pc.toEnd]⟩
  case clearChannel | clearConnection =>
    obtain rfl := hc
    exact ⟨hstop, by simp [Pc.toEnd]⟩
  case backoff level =>
    rcases hc with ⟨_, -, rfl⟩ | ⟨_, -, rfl⟩
    · refine ⟨hstop, ?_⟩
      cases level <;> simp [Pc.toEnd]
    · exact ⟨hstop, by simp [Pc.toEnd]⟩

theorem io_of_ended (hended : s.pc.ended = true) : s.io self raises runs draw = none := by
  unfold io
  cases hpc : s.pc <;> rw [hpc] at hended <;> first | rfl | cases hended

theorem leaves_of_ofRun (self : Config) {a : Action} (ht : s.step self a = some t)
    (ha : ofRun s a = false) : Leaves s t := by
  refine leaves_step ht ?_
  rintro raises runs draw rfl
  cases ha

/-- **After a stop, the steps of `run` lead to its end**, whatever else happens. -/
theorem leads_to_end (self : Config) (c : ListenerLoop → Action → Prop) :
    (machine self).Leads c ofRun (fun s => s.stopMe = true) (fun s => s.pc.ended = true)
      (fun s => s.pc.toEnd) where
  step s a t _ hstop ht := by
    have hstep : s.step self a = some t := ht
    refine .inr ?_
    cases a with
    | io raises runs draw => exact io_toEnd hstop hstep
    | callStop | stop | tick | lose | loseChannel =>
      have hleaves := leaves_of_ofRun self hstep rfl
      exact ⟨hleaves.stopMe hstop, Nat.le_of_eq (congrArg Pc.toEnd hleaves.pc)⟩
  stays s a t _ hended ht := by
    have hstep : s.step self a = some t := ht
    cases a with
    | io raises runs draw =>
      rw [step, io_of_ended hended] at hstep
      cases hstep
    | callStop | stop | tick | lose | loseChannel =>
      rw [(leaves_of_ofRun self hstep rfl).pc]
      exact hended

/-! ## The loop never hangs -/

/-- A step of `run`, or of the clock. -/
def runOrTick (_ : ListenerLoop) : Action → Prop
  | .io _ _ _ | .tick _ => True
  | _ => False

/-- When the loop goes on, if it sleeps. -/
def Pc.deadline : Pc → Option ℚ
  | .retrySleep _ until_ | .sleep until_ => some until_
  | _ => none

theorem io_isSome (self : Config) (hended : s.pc.ended = false)
    (hwake : ∀ d, s.pc.deadline = some d → d ≤ s.clock) :
    ∃ t, s.io self false false 0 = some t := by
  unfold io
  cases hpc : s.pc <;> rw [hpc] at hended hwake
  case exited | escaped => cases hended
  case retrySleep | sleep =>
    simp only [if_pos (hwake _ rfl)]
    exact ⟨_, rfl⟩
  case retryFailed | backoff =>
    simp only [RetryPolicy.draws_zero, if_true]
    exact ⟨_, rfl⟩
  all_goals exact ⟨_, rfl⟩

/-- **The next step of `run` can be taken**, if need be after a sleep. -/
theorem exists_io (self : Config) {c : ListenerLoop → Action → Prop}
    (hio : ∀ s, c s (.io false false 0)) (hc : ∀ s dt, c s (.tick dt))
    (hended : s.pc.ended = false) :
    ∃ t, ((machine self).counting ofRun).Path (fun q a => c q.1 a) (s, 0) (t, 1) := by
  let dt : ℚ := max 0 (s.pc.deadline.getD 0 - s.clock)
  let later : ListenerLoop := { s with clock := s.clock + dt }
  have htick : ((machine self).counting ofRun).Path (fun q a => c q.1 a) (s, 0) (later, 0) :=
    (Machine.Path.refl (s, 0)).pass (.tick dt) (hc s dt) rfl
      (by simp [machine, step, later, dt])
  obtain ⟨t, ht⟩ : ∃ t, later.io self false false 0 = some t := by
    refine io_isSome self hended fun d hd => ?_
    have hlong : s.pc.deadline.getD 0 - s.clock ≤ dt := le_max_right _ _
    have hd : s.pc.deadline = some d := hd
    rw [hd, Option.getD_some] at hlong
    show d ≤ s.clock + dt
    linarith
  exact ⟨t, htick.count (.io false false 0) (hio later) rfl ht⟩

/-- **A loop that is to stop can end**, by its own steps and the clock. -/
theorem exists_ended (self : Config) (hstop : s.stopMe = true) :
    ∃ t, (machine self).Path runOrTick s t ∧ t.pc.ended = true :=
  (leads_to_end self runOrTick).exists_goal (fun s _ hended => by
    obtain ⟨t, ht⟩ := exists_io self (c := runOrTick) (fun _ => trivial) (fun _ _ => trivial)
      (by simpa using hended)
    exact ⟨t, 0, ht⟩) hstop

/-! ## `stop_listening` -/

/-- How many steps of `stop_listening` are left at most. -/
def StopPc.toIdle : StopPc → Nat
  | .idle => 0
  | .closeConnection => 1
  | .testIsOpen => 2
  | .testConnection => 3
  | .closeChannel => 4
  | .testChannel => 5
  | .stopConsuming => 6
  | .testConsuming => 7
  | .schedule => 8
  | .readIsOpen => 9
  | .readConnection => 10
  | .set => 11

theorem stop_toIdle (h : s.stop = some t) : t.stopping.toIdle < s.stopping.toIdle := by
  unfold stop at h
  cases hs : s.stopping <;> rw [hs] at h
  case idle => cases h
  case schedule =>
    simp only at h
    split at h
    · cases h; simp [StopPc.toIdle]
    · split at h <;> cases h <;> simp [StopPc.toIdle]
  all_goals
    cases h
    dsimp only
    first
      | decide
      | split <;> decide

/-- A step of `stop_listening`. -/
def ofStop (_ : ListenerLoop) : Action → Bool
  | .stop => true
  | _ => false

theorem exists_stop (hbusy : s.stopping ≠ .idle) : ∃ t, s.stop = some t := by
  unfold stop
  cases hs : s.stopping
  case idle => exact absurd hs hbusy
  case schedule =>
    simp only
    split
    · exact ⟨_, rfl⟩
    · split <;> exact ⟨_, rfl⟩
  all_goals exact ⟨_, rfl⟩

/-- **`stop_listening` can return**, by its own steps. -/
theorem exists_idle (self : Config) (s : ListenerLoop) :
    ∃ t, (machine self).Path (fun s a => ofStop s a = true) s t ∧ t.stopping = .idle := by
  have hleads : (machine self).Leads (fun s a => ofStop s a = true) ofStop (fun _ => True)
      (fun s => s.stopping = .idle) (fun s => s.stopping.toIdle) := by
    refine ⟨fun s a t ha _ ht => ?_, fun s a t ha hidle ht => ?_⟩
    all_goals
      cases a with
      | stop => ?_
      | io | callStop | tick | lose | loseChannel => cases ha
    · have hstep : s.stop = some t := ht
      exact .inr ⟨trivial, stop_toIdle hstep⟩
    · have hstep : s.stop = some t := ht
      rw [stop, hidle] at hstep
      cases hstep
  refine hleads.exists_goal (fun s _ hbusy => ?_) trivial
  obtain ⟨t, ht⟩ := exists_stop hbusy
  exact ⟨t, 0, Machine.Path.count (c := fun s a => ofStop s a = true)
    (Machine.Path.refl (s, 0)) Action.stop rfl rfl ht⟩

end ListenerLoop

end MqAdapters
