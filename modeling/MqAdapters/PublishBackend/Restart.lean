import MqAdapters.PublishBackend.Stop

/-!
# What a start resets

`start` clears the stop event but not a sentinel that an earlier `stop` left in
the queue, and it returns at once when the old thread is still alive, although
that thread may be about to end.

`restart_iff`: after a call of `start`, and until the next call of `stop`, the
I/O thread runs and nothing is left that tells it to stop, exactly when the
start was *clean*.  The calls are made one after the other.
-/

namespace MqAdapters

open Python Theory

namespace PublishBackend

variable {self : Config} {s s' t : PublishBackend}

/-- No call is under way. -/
def idle (s : PublishBackend) : Bool :=
  s.starting.isNone && s.stopping.isEmpty && s.publishing.isEmpty

/-- The calls are made one after the other. -/
def sequential (s : PublishBackend) : Action → Bool
  | .callStart | .callStop _ | .callPublish _ _ => s.idle
  | _ => true

/-- The backoff delay of a handler can be computed. -/
def pauses (self : Config) (s : PublishBackend) : Action → Bool
  | .io _ draw => match s.thread with
    | some th => match th.pc with
      | .handler =>
        match self.reconnectRetryPolicy.pause (s.reconnectFailures + 2) draw with
        | .error _ => false
        | .ok _ => true
      | _ => true
    | none => true
  | _ => true

/-- The steps after a start, up to the next call of `stop`. -/
def started (self : Config) (s : PublishBackend) (a : Action) : Bool :=
  sequential s a && pauses self s a && match a with
    | .callStop _ => false
    | _ => true

/-- The I/O thread is in its loop, and neither the stop event nor a sentinel
tells it to leave. -/
def Running (s : PublishBackend) : Prop := (view s).Sound

/-- What a start needs: a thread that runs on, or none and a queue without
sentinel. -/
def CleanStart (s : PublishBackend) : Prop :=
  if s.alive then Running s else none ∉ s.queue

/-- What holds from a clean start to the next call of `stop`: no stop is under
way, and once `start` has returned the thread runs on. -/
def Restarted (s : PublishBackend) : Prop :=
  s.stopping = [] ∧ match s.starting with
    | none => Running s
    | some .clear => none ∉ s.queue
    | some .spawn => none ∉ s.queue ∧ s.stopEvent = false

theorem quiet_of_started {a : Action} {m : Consumer.Move PublishRequest}
    (hst : s.stopping = []) (hc : started self s a = true) (hm : move self s a = some m) :
    Consumer.Quiet m := by
  cases a with
  | io raises draw =>
    obtain ⟨th, hth, hm⟩ := Option.bind_eq_some_iff.mp hm
    simp only [started, sequential, pauses, hth, Bool.true_and, Bool.and_true] at hc
    unfold ioMove at hm
    split at hm
    case h_7 hpc =>
      -- the handler crashes only if it cannot pause
      simp only [hpc] at hc
      split at hm
      · next he => simp [he] at hc
      · cases hm
    all_goals repeat' split at hm
    all_goals
      cases hm
      try trivial
  | start =>
    simp only [move] at hm
    split at hm
    all_goals
      cases hm
      try trivial
  | stop i => exact absurd hm (by simp [move, hst])
  | publish i =>
    obtain ⟨r, -, rfl⟩ := Option.map_eq_some_iff.mp hm
    trivial
  | callStart | callStop | callPublish | tick | lose => exact absurd hm (by simp [move])

theorem alive_of_running (h : Running s) : s.alive = true := by
  by_contra hal
  exact h.2.2.1 (phase_of_not_alive (by simpa using hal))

theorem running_step {a : Action} (hw : Wellformed self s) (hst : s.stopping = [])
    (hrun : Running s) (hc : started self s a = true) (h : s.step self a = some t) :
    Running t := by
  have hview := view_step self s a t hw h
  rcases hm : move self s a with _ | m <;> rw [hm] at hview
  · rw [Running, show view t = view s from hview]
    exact hrun
  · exact Consumer.sound_step hview (quiet_of_started hst hc hm) hrun

theorem restarted_start (hr : Restarted s) (h : s.step self .start = some t) : Restarted t := by
  obtain ⟨hst, hr⟩ := hr
  obtain ⟨hs, rfl⟩ | ⟨hs, rfl⟩ := step_cases h <;> rw [hs] at hr
  · exact ⟨hst, hr, rfl⟩
  · exact ⟨hst, hr.2, hr.1, by simp [view, phase], by simp [view, phase]⟩

theorem restarted_step {a : Action} (hw : Wellformed self s) (hr : Restarted s)
    (hc : started self s a = true) (h : s.step self a = some t) : Restarted t := by
  have hcases := step_cases h
  obtain ⟨hst, hr⟩ := hr
  rcases hs : s.starting with _ | _ | _ <;> rw [hs] at hr
  · -- `start` has returned
    have hrun : Running t := running_step hw hst hr hc h
    suffices t.stopping = [] ∧ t.starting = none from ⟨this.1, by rw [this.2]; exact hrun⟩
    cases a with
    | io raises draw =>
      obtain ⟨th, hth, h⟩ := hcases
      exact ⟨(io_frame h).stopping.trans hst, (io_frame h).starting.trans hs⟩
    | callStart =>
      obtain ⟨-, ⟨-, rfl⟩ | ⟨hal, -⟩⟩ := hcases
      · exact ⟨hst, hs⟩
      · exact absurd (alive_of_running hr) (by simp [hal])
    | start =>
      obtain ⟨h', -⟩ | ⟨h', -⟩ := hcases
      all_goals exact absurd h' (by simp [hs])
    | callStop wait => exact absurd hc (by simp [started])
    | stop i => exact absurd h (by simp [step, stop, hst])
    | callPublish | lose => obtain rfl : t = _ := hcases; exact ⟨hst, hs⟩
    | publish i => obtain ⟨r, -, rfl⟩ := hcases; exact ⟨hst, hs⟩
    | tick dt => obtain ⟨-, rfl⟩ := hcases; exact ⟨hst, hs⟩
  all_goals
    -- `start` is under way, and no thread is alive
    have hdead := hw.starting (by simp [hs])
    cases a with
    | io raises draw =>
      obtain ⟨th, hth, h⟩ := hcases
      have hal := (io_pooled (hw.pooled th hth) h).1
      exact absurd hdead (by simp [alive, hth, hal])
    | callStart => exact absurd hcases.1 (by simp [hs])
    | callStop wait => exact absurd hc (by simp [started])
    | stop i => exact absurd h (by simp [step, stop, hst])
    | callPublish | lose =>
      obtain rfl : t = _ := hcases
      exact ⟨hst, by simpa [callPublish, hs] using hr⟩
    | publish i =>
      obtain ⟨r, -, rfl⟩ := hcases
      exact ⟨hst, by simpa [hs] using hr⟩
    | tick dt => obtain ⟨-, rfl⟩ := hcases; exact ⟨hst, by simpa [hs] using hr⟩
    | start => exact restarted_start ⟨hst, by simpa [hs] using hr⟩ h

theorem restarted_of_path (h : (machine self).Path (fun s a => started self s a = true) s t)
    (hw : Wellformed self s) (hr : Restarted s) : Restarted t := by
  have ht : Wellformed self t ∧ Restarted t := by
    refine h.invariant (P := fun t => Wellformed self t ∧ Restarted t) ⟨hw, hr⟩ ?_
    rintro u a v hc ⟨hwu, hru⟩ hv
    exact ⟨wellformed_step self u a v hwu hv, restarted_step hwu hru hc hv⟩
  exact ht.2

theorem Restarted.running (hr : Restarted s) (hret : s.starting = none) : Running s := by
  have := hr.2
  rwa [hret] at this

/-- `start` can go through with nothing in between; the queue is as before. -/
theorem exists_start (self : Config) (hs : s.starting = some .clear) :
    ∃ t, (machine self).Path (fun s a => started self s a = true) s t ∧ t.starting = none ∧
      t.queue = s.queue := by
  have hclear : s.step self .start =
      some { s with stopEvent := false, starting := some .spawn } := by
    simp only [step, start, hs]
  have hpath : (machine self).Path (fun s a => started self s a = true) s
      { s with stopEvent := false, starting := some .spawn } :=
    (Machine.Path.refl s).snoc (a := Action.start) rfl hclear
  exact ⟨_, hpath.snoc (a := Action.start) rfl rfl, rfl, rfl⟩

/-- **A start is effective until the next stop exactly when it is clean.**  From
the moment `start` returns, the I/O thread runs and nothing tells it to leave,
whatever the other calls and the loop do. -/
theorem restart_iff (hs : (machine self).Reach (fun s a => sequential s a = true) s)
    (hidle : s.idle = true) (hstart : s.step self .callStart = some s') :
    (∀ t, (machine self).Path (fun s a => started self s a = true) s' t → t.starting = none →
      Running t) ↔ CleanStart s := by
  obtain ⟨hw, -⟩ := accounted_of_reach hs
  have hw' := wellformed_step self s _ s' hw hstart
  obtain ⟨⟨hnone, hstop⟩, -⟩ : (s.starting = none ∧ s.stopping = []) ∧ s.publishing = [] := by
    simpa [idle] using hidle
  obtain ⟨-, ⟨hal, rfl⟩ | ⟨hal, rfl⟩⟩ := step_cases hstart
  · -- the old thread is alive, and `start` returns at once
    simp only [CleanStart, hal, if_true]
    constructor
    · intro h
      exact h s' (Machine.Path.refl _) hnone
    · intro hrun t ht hret
      have hr : Restarted s' := ⟨hstop, by simpa [hnone] using hrun⟩
      exact (restarted_of_path ht hw hr).running hret
  · simp only [CleanStart, hal, Bool.false_eq_true, if_false]
    constructor
    · intro h
      obtain ⟨t, ht, hret, hq⟩ := exists_start self (s := { s with starting := some .clear }) rfl
      have hnq : none ∉ t.queue := (h t ht hret).2.1
      rwa [hq] at hnq
    · intro hq t ht hret
      exact (restarted_of_path ht hw' ⟨hstop, hq⟩).running hret

/-! ## A start that is not clean -/

/-- A backend with one channel and no heartbeat. -/
def quietConfig : Config := { defaultConfig with channels := 1, heartbeatInterval := 0 }

/-- A backend that is not started yet and has been stopped. -/
def stoppedFirst : PublishBackend :=
  ((machine quietConfig).runIn sequential initial
    [.callStop true, .stop 0, .stop 0, .stop 0, .stop 0]).getD initial

theorem stoppedFirst_reach :
    (machine quietConfig).Reach (fun s a => sequential s a = true) stoppedFirst :=
  Machine.path_of_runIn (show (machine quietConfig).runIn sequential initial
    [.callStop true, .stop 0, .stop 0, .stop 0, .stop 0] = some stoppedFirst from rfl)

def startedAgain : PublishBackend := (stoppedFirst.step quietConfig .callStart).getD initial

theorem restart_iff_stopped :
    (∀ t, (machine quietConfig).Path (fun s a => started quietConfig s a = true) startedAgain t →
      t.starting = none → Running t) ↔ CleanStart stoppedFirst :=
  restart_iff stoppedFirst_reach rfl rfl

/-- The rest of `start`, and the loop of the new thread up to its exit. -/
def restartRun : List Action := [.start, .start] ++ List.replicate 9 (.io false 0)

/-- The new thread took the sentinel left over. -/
def sentinelTaken : PublishBackend :=
  ((machine quietConfig).runIn (started quietConfig) startedAgain restartRun).getD initial

/-- A start after a stop leads to a thread that exits, with no further stop. -/
theorem restarted_thread_exits : ∃ s s' t,
    (machine quietConfig).Reach (fun s a => sequential s a = true) s ∧ s.idle = true ∧
    s.step quietConfig .callStart = some s' ∧
    (machine quietConfig).Path (fun s a => started quietConfig s a = true) s' t ∧
    t.starting = none ∧ t.thread.map (·.pc) = some (.dead .sentinel) :=
  ⟨stoppedFirst, startedAgain, sentinelTaken, stoppedFirst_reach, rfl, rfl,
    Machine.path_of_runIn (show (machine quietConfig).runIn (started quietConfig) startedAgain
      restartRun = some sentinelTaken from rfl), rfl, rfl⟩

end PublishBackend

end MqAdapters
