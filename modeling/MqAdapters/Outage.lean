import MqAdapters.Listener.Stop
import MqAdapters.PublishBackend.Restart

/-!
# What the reconnect loops survive

Both loops catch what goes wrong and count it, and compute the next delay inside
the `except` handler.  The power in `delay_for_attempt` is computed before it is
cut off at `max_delay`, so the handler itself raises once the power exceeds the
largest finite double.

`outage_survived`: as long as it does not, the loops end only when they are
told to, whatever fails and however often; and the first step in which it does is
one that an exception leaves.  `outage_kills` is the run of the default policy in
which 1024 failures in a row end the I/O thread.
-/

namespace MqAdapters

open Theory

/-! ## The publish backend -/

namespace PublishBackend

variable {self : Config} {s t : PublishBackend} {th : Thread}

/-- A delay that the loop computes is one it can compute. -/
def inRange (self : Config) (s : PublishBackend) : Action → Prop
  | .io _ _ => ∀ th, s.thread = some th → th.pc = .handler →
      self.reconnectRetryPolicy.multiplier ^ s.reconnectFailures ≤ maxDouble
  | _ => True

/-- No delay is computed in this state. -/
def unfailed (s : PublishBackend) : Bool :=
  s.thread.all fun th => match th.pc with
    | .handler => false
    | _ => true

theorem inRange_of_unfailed (a : Action) (h : s.unfailed = true) :
    inRange self s a := by
  cases a with
  | io raises draw =>
    intro th hth hpc
    simp [unfailed, hth, hpc] at h
  | _ => trivial

/-- The exception that has left `_run`. -/
def escaped (s : PublishBackend) : Option DelayError :=
  s.thread.bind fun th => match th.pc with
    | .cleanup (.escaped e) | .dead (.escaped e) => some e
    | _ => none

/-- An exception leaves the loop from the handler only. -/
theorem io_escaped {raises : Bool} {draw : ℚ} {e : DelayError} (hth : s.thread = some th)
    (h : s.io self th raises draw = some t) (he : t.escaped = some e) :
    s.escaped = some e ∨ th.pc = .handler ∧
      self.reconnectRetryPolicy.pause (s.reconnectFailures + 2) draw = .error e := by
  obtain ⟨th', hth', he⟩ := Option.bind_eq_some_iff.mp he
  have hsource := source_of_io h hth'
  split at he
  · next e' hpc =>
    rw [hpc] at hsource
    rcases hsource with hexit | hexit <;> cases hexit
  · next e' hpc =>
    obtain rfl := Option.some.inj he
    rw [hpc] at hsource
    obtain hpc | ⟨hpc, e, hexit, hp⟩ := hsource
    · exact .inl (by simp [escaped, hth, hpc])
    · obtain rfl := Exit.escaped.inj hexit
      exact .inr ⟨hpc, hp⟩
  · cases he

theorem step_escaped {a : Action} (hs : self.reconnectRetryPolicy.Sane) (hc : inRange self s a)
    (h : s.step self a = some t) (he : s.escaped = none) : t.escaped = none := by
  obtain ⟨raises, draw, th, rfl, hth, h⟩ | ⟨rfl, -, rfl⟩ | ⟨-, ha⟩ := thread_cases h
  · rcases ht : t.escaped with _ | e
    · rfl
    · rcases io_escaped hth h ht with hse | ⟨hpc, hp⟩
      · exact absurd hse (by simp [he])
      · have hlt := (RetryPolicy.pause_eq_error_iff hs _ draw).mp ⟨e, hp⟩
        exact absurd (hc th hth hpc) (not_le.mpr hlt)
  · rfl
  · rw [escaped, ha.thread]
    exact he

/-- **The bound is exact**: a delay out of range ends the thread. -/
theorem escaped_eq_none_iff {a : Action} (hs : self.reconnectRetryPolicy.Sane)
    (he : s.escaped = none) (h : s.step self a = some t) :
    t.escaped = none ↔ inRange self s a := by
  refine ⟨fun ht => ?_, fun hc => step_escaped hs hc h he⟩
  cases a with
  | io raises draw =>
    intro th hth hpc
    by_contra hlt
    obtain ⟨e, herr⟩ :=
      (RetryPolicy.pause_eq_error_iff hs s.reconnectFailures draw).mpr (not_le.mp hlt)
    simp only [step, hth, Option.bind_some, io, hpc] at h
    split at h <;> cases h
    simp [handler, add_assoc, herr, escaped, goto] at ht
  | _ => trivial

/-- A loop whose delays are in range does not crash. -/
theorem move_ne_crash {a : Action} (hs : self.reconnectRetryPolicy.Sane)
    (hc : inRange self s a) : move self s a ≠ some .crash := by
  intro hm
  cases a with
  | io raises draw =>
    obtain ⟨th, hth, hm⟩ := Option.bind_eq_some_iff.mp hm
    unfold ioMove at hm
    split at hm
    case h_7 hpc =>
      split at hm
      · next e hp =>
        have hlt := (RetryPolicy.pause_eq_error_iff hs _ draw).mp ⟨e, hp⟩
        exact absurd (hc th hth hpc) (not_le.mpr hlt)
      · cases hm
    all_goals repeat' split at hm
    all_goals cases hm
  | start =>
    simp only [move] at hm
    split at hm <;> cases hm
  | stop i =>
    obtain ⟨call, -, hm⟩ := Option.bind_eq_some_iff.mp hm
    repeat' split at hm
    all_goals cases hm
  | publish i =>
    obtain ⟨r, -, hm⟩ := Option.map_eq_some_iff.mp hm
    cases hm
  | callStart | callStop | callPublish | tick | lose => exact absurd hm (by simp [move])

/-- The I/O thread leaves its loop because of the event or of a sentinel. -/
theorem asked_of_leaves {a : Action} (hw : Wellformed self s)
    (hs : self.reconnectRetryPolicy.Sane) (hc : inRange self s a)
    (h : s.step self a = some t) (hin : s.phase ≠ .out) (hout : t.phase = .out) :
    s.stopEvent = true ∨ s.phase = .woken := by
  have hview := view_step self s a t hw h
  rcases hm : move self s a with _ | m <;> rw [hm] at hview
  · have hphase : t.phase = s.phase := congrArg Consumer.phase hview
    exact absurd (hphase ▸ hout) hin
  · exact Consumer.asked_of_leaves hview (fun hcr => move_ne_crash hs hc (hcr ▸ hm)) hin hout

end PublishBackend

/-! ## The listener -/

namespace ListenerLoop

variable {self : Config} {s t : ListenerLoop}

/-- A delay that the loop, or the connect inside it, computes is one it can
compute. -/
def inRange (self : Config) (s : ListenerLoop) : Action → Prop
  | .io _ _ _ => match s.pc with
    | .retryFailed attempt =>
      (self.connectRetryPolicy.maxAttempts.any fun n => n ≤ (attempt : Int)) = true ∨
        self.connectRetryPolicy.multiplier ^ (attempt - 1) ≤ maxDouble
    | .backoff _ => self.loopRetryPolicy.multiplier ^ s.loopFailures ≤ maxDouble
    | _ => True
  | _ => True

/-- No handler has failed to pause, and the loop has ended only if stopped. -/
structure Survived (s : ListenerLoop) : Prop where
  escapes : s.escapes = []
  escaped : ∀ e, s.pc ≠ .escaped e
  asked : s.pc = .exited → s.stopMe = true

@[simp] theorem dropChannel_escapes : s.dropChannel.escapes = s.escapes := by
  obtain ⟨_, h⟩ := exists_dropChannel s
  rw [h]

@[simp] theorem dropConnection_escapes (raises : Bool) :
    (s.dropConnection raises).escapes = s.escapes := by
  obtain ⟨_, _, h⟩ := exists_dropConnection s raises
  rw [h]

@[simp] theorem runQueued_escapes (raises : Bool) :
    (s.runQueued raises).escapes = s.escapes := by
  obtain ⟨_, _, _, _, h⟩ := exists_runQueued s raises
  rw [h]

theorem stop_frame (h : s.stop = some t) :
    t.pc = s.pc ∧ t.escapes = s.escapes ∧ (s.stopMe = true → t.stopMe = true) := by
  rcases stop_cases h with ⟨_, _, _, rfl⟩ | ⟨-, rfl⟩ | ⟨_, -, rfl⟩ | ⟨c, _, -, -, rfl⟩
  · exact ⟨rfl, rfl, id⟩
  · exact ⟨rfl, rfl, fun _ => rfl⟩
  · obtain ⟨channels, hshut⟩ := exists_shutChannel s s.channel
    rw [hshut]
    exact ⟨rfl, rfl, id⟩
  · exact ⟨rfl, rfl, id⟩

/-- The loop goes on inside. -/
theorem Survived.goes (hs : Survived s) (he : t.escapes = s.escapes)
    (h : ∀ e, t.pc ≠ .escaped e) (hx : t.pc ≠ .exited) : Survived t :=
  ⟨he.trans hs.escapes, h, fun hpc => absurd hpc hx⟩

/-- **One step of the loop** during an outage. -/
theorem survived_io {raises runs : Bool} {draw : ℚ} (hp : self.connectRetryPolicy.Sane)
    (hl : self.loopRetryPolicy.Sane) (hs : Survived s) (hc : inRange self s (.io raises runs draw))
    (h : s.io self raises runs draw = some t) : Survived t := by
  have hcases := io_cases h
  cases hpc : s.pc <;> simp only [hpc] at hcases <;> simp only [inRange, hpc] at hc
  case retryFailed attempt =>
    obtain ⟨-, rfl⟩ | ⟨hmax, ⟨e, herr, rfl⟩ | ⟨delay, -, rfl⟩⟩ := hcases
    · exact hs.goes rfl (fun _ => by simp) (by simp)
    · have hpow := hc.resolve_left (by simp [hmax])
      rcases attempt with _ | n
      · exact absurd herr (RetryPolicy.pause_one _ draw e)
      · have hlt := (RetryPolicy.pause_eq_error_iff hp n draw).mp
          ⟨e, by simpa [add_assoc] using herr⟩
        exact absurd hpow (not_le.mpr hlt)
    · exact hs.goes rfl (fun _ => by simp) (by simp)
  case backoff level =>
    obtain ⟨e, herr, rfl⟩ | ⟨delay, -, rfl⟩ := hcases
    · exact absurd hc (not_le.mpr ((RetryPolicy.pause_eq_error_iff hl _ draw).mp ⟨e, herr⟩))
    · exact hs.goes rfl (fun _ => by simp) (by simp)
  case top =>
    obtain ⟨hstop, rfl⟩ | ⟨-, rfl⟩ := hcases
    · exact ⟨hs.escapes, fun e => by simp, fun _ => hstop⟩
    · exact hs.goes rfl (fun _ => by simp) (by simp)
  case retrySleep | sleep =>
    obtain ⟨-, rfl⟩ := hcases
    exact hs.goes rfl (fun _ => by simp) (by simp)
  case begin | clearChannel | clearConnection =>
    subst hcases
    exact hs.goes rfl (fun _ => by simp) (by simp)
  case checkConnection | retry | checkChannel | handler | connecting =>
    obtain ⟨-, rfl⟩ | ⟨-, rfl⟩ := hcases
    all_goals exact hs.goes rfl (fun _ => by simp) (by simp)
  case setup =>
    obtain ⟨-, rfl⟩ | ⟨-, rfl⟩ := hcases
    · exact hs.goes rfl (fun _ => by simp) (by simp)
    · exact hs.goes rfl (fun _ => by simp [setup]) (by simp [setup])
  case openChannel =>
    obtain ⟨-, rfl⟩ | ⟨c, -, -, rfl⟩ := hcases
    all_goals exact hs.goes rfl (fun _ => by simp) (by simp)
  case pump =>
    subst hcases
    unfold pump
    cases runs <;> cases raises <;>
      exact hs.goes (by simp) (fun _ => by simp) (by simp)
  case closeChannel level =>
    subst hcases
    exact hs.goes dropChannel_escapes (fun _ => by simp) (by simp)
  case closeConnection level =>
    subst hcases
    exact hs.goes (dropConnection_escapes raises) (fun _ => by simp) (by simp)

theorem survived_step {a : Action} (hp : self.connectRetryPolicy.Sane)
    (hl : self.loopRetryPolicy.Sane) (hs : Survived s) (hc : inRange self s a)
    (h : s.step self a = some t) : Survived t := by
  have hcases := step_cases h
  cases a with
  | io raises runs draw => exact survived_io hp hl hs hc h
  | stop =>
    obtain ⟨hpc, he, hstop⟩ := stop_frame h
    exact ⟨he.trans hs.escapes, fun e => hpc ▸ hs.escaped e, fun hx => hstop (hs.asked (hpc ▸ hx))⟩
  | callStop | tick =>
    obtain ⟨-, rfl⟩ := hcases
    exact ⟨hs.escapes, hs.escaped, hs.asked⟩
  | lose | loseChannel =>
    cases h
    exact ⟨hs.escapes, hs.escaped, hs.asked⟩

/-- **The bound is exact**: a delay out of range is an exception of the handler. -/
theorem survived_iff {a : Action} (hp : self.connectRetryPolicy.Sane)
    (hl : self.loopRetryPolicy.Sane) (hs : Survived s) (h : s.step self a = some t) :
    Survived t ↔ inRange self s a := by
  refine ⟨fun ht => ?_, fun hc => survived_step hp hl hs hc h⟩
  cases a with
  | io raises runs draw =>
    simp only [inRange]
    simp only [step, io] at h
    split
    · next attempt hpc =>
      by_contra hc
      obtain ⟨hmax, hlt⟩ := not_or.mp hc
      simp only [hpc] at h
      split at h <;> cases h
      rcases attempt with _ | n
      · exact hlt (by simpa using (two_pow_le_maxDouble_iff 0).mpr (Nat.zero_le _))
      · obtain ⟨e, herr⟩ := (RetryPolicy.pause_eq_error_iff hp n draw).mpr (not_le.mp hlt)
        have herr' : self.connectRetryPolicy.pause (((n + 1 : Nat) : Int) + 1) draw = .error e := by
          simpa [add_assoc] using herr
        have he := ht.escapes
        unfold retryFailed at he
        rw [if_neg hmax, herr'] at he
        simp at he
    · next level hpc =>
      by_contra hlt
      obtain ⟨e, herr⟩ :=
        (RetryPolicy.pause_eq_error_iff hl s.loopFailures draw).mpr (not_le.mp hlt)
      simp only [hpc] at h
      split at h <;> cases h
      have he := ht.escapes
      simp [backoff, add_assoc, herr] at he
    · trivial
  | _ => trivial

end ListenerLoop

/-! ## Both loops -/

/-- **The loops survive an outage** as long as every delay they compute is in
range, whatever fails and however often: they end only when told to, and no
exception leaves a handler.  The bound is exact: the next step keeps that if and only
if its delay is in range too. -/
theorem outage_survived (backend : PublishBackend.Config) (listener : ListenerLoop.Config)
    (hb : backend.reconnectRetryPolicy.Sane) (hp : listener.connectRetryPolicy.Sane)
    (hl : listener.loopRetryPolicy.Sane) :
    (∀ s a t, (PublishBackend.machine backend).Reach (PublishBackend.inRange backend) s →
      s.step backend a = some t →
        (t.escaped = none ↔ PublishBackend.inRange backend s a) ∧
          (PublishBackend.inRange backend s a →
            s.phase ≠ .out → t.phase = .out → s.stopEvent = true ∨ s.phase = .woken)) ∧
    (∀ s, (ListenerLoop.machine listener).Reach (ListenerLoop.inRange listener) s →
      (s.escapes = [] ∧ (∀ e, s.pc ≠ .escaped e) ∧ (s.pc = .exited → s.stopMe = true)) ∧
        ∀ a t, s.step listener a = some t →
          (t.Survived ↔ ListenerLoop.inRange listener s a)) := by
  constructor
  · intro s a t hs ht
    obtain ⟨hw, -⟩ := PublishBackend.accounted_of_reach hs
    have he : s.escaped = none :=
      hs.invariant (P := fun s => s.escaped = none) rfl
        fun _ _ _ _ hc he ht => PublishBackend.step_escaped hb hc ht he
    exact ⟨PublishBackend.escaped_eq_none_iff hb he ht, fun hc =>
      PublishBackend.asked_of_leaves hw hb hc ht⟩
  · intro s hs
    have hsur : s.Survived :=
      hs.invariant (P := ListenerLoop.Survived) ⟨rfl, nofun, nofun⟩
        fun _ _ _ _ hc hsur ht => ListenerLoop.survived_step hp hl hsur hc ht
    exact ⟨⟨hsur.escapes, hsur.escaped, hsur.asked⟩, fun a t ht =>
      ListenerLoop.survived_iff hp hl hsur ht⟩

/-! ## An outage that is not survived -/

namespace PublishBackend

/-- The I/O thread has failed to connect `n + 1` times in a row, and nobody has
asked it to stop. -/
structure Failing (n : Nat) (s : PublishBackend) : Prop where
  thread : ∃ th, s.thread = some th ∧ th.pc = .handler ∧ th.conn = none
  failures : s.reconnectFailures = n
  stopEvent : s.stopEvent = false
  queue : s.queue = []

/-- `start`, up to the first connect. -/
def firstConnect : PublishBackend :=
  ((machine defaultConfig).runIn (fun _ _ => true) initial
    [.callStart, .start, .start, .io false 0]).getD initial

/-- The first connect raises. -/
def firstFailure : PublishBackend :=
  (firstConnect.step defaultConfig (.io true 0)).getD firstConnect

theorem firstConnect_reach :
    (machine defaultConfig).Reach (inRange defaultConfig) firstConnect :=
  (Machine.path_of_runIn (c := fun s _ => unfailed s) (show (machine defaultConfig).runIn
    (fun s _ => unfailed s) initial [.callStart, .start, .start, .io false 0] =
      some firstConnect from rfl)).mono fun _ a => inRange_of_unfailed a

theorem firstFailure_inRange :
    (machine defaultConfig).Reach (inRange defaultConfig) firstFailure :=
  firstConnect_reach.snoc (a := .io true 0) (inRange_of_unfailed (.io true 0) rfl) rfl

theorem failing_firstFailure : Failing 0 firstFailure := ⟨⟨_, rfl, rfl, rfl⟩, rfl, rfl, rfl⟩

/-- The handler computes the delay after the first failure. -/
def firstPause : PublishBackend :=
  (firstFailure.step defaultConfig (.io false 0)).getD firstFailure

theorem firstPause_step : firstFailure.step defaultConfig (.io false 0) = some firstPause := by
  have h : (firstFailure.step defaultConfig (.io false 0)).isSome = true := by decide +kernel
  obtain ⟨t, ht⟩ := Option.isSome_iff_exists.mp h
  rw [firstPause, ht, Option.getD_some]

/-- Its power is one that a double holds. -/
theorem inRange_firstFailure : inRange defaultConfig firstFailure (.io false 0) := by
  intro th _ _
  rw [failing_firstFailure.failures]
  exact (two_pow_le_maxDouble_iff 0).mpr (Nat.zero_le _)

/-- The first failure is survived. -/
theorem outage_survived_once :
    (∃ th, firstFailure.thread = some th ∧ th.pc = .handler) ∧ firstPause.escaped = none :=
  ⟨⟨_, rfl, rfl⟩, ((outage_survived defaultConfig ListenerLoop.defaultConfig loopRetryPolicy_sane
    connectRetryPolicy_sane loopRetryPolicy_sane).1 firstFailure (.io false 0) firstPause
    firstFailure_inRange firstPause_step).1.mpr inRange_firstFailure⟩

theorem firstFailure_reach : (machine defaultConfig).Reach Machine.anyStep firstFailure :=
  firstFailure_inRange.mono fun _ _ _ => trivial

/-- The default policy can pause until the 1024th power. -/
theorem default_pauses {n : Nat} (hn : n ≤ 1023) :
    ∃ delay, loopRetryPolicy.pause (n + 2) 0 = .ok delay := by
  rcases hp : loopRetryPolicy.pause (n + 2) 0 with e | delay
  · have hlt := (RetryPolicy.pause_eq_error_iff loopRetryPolicy_sane n 0).mp ⟨e, hp⟩
    exact absurd ((two_pow_le_maxDouble_iff n).mpr hn) (not_le.mpr hlt)
  · exact ⟨delay, rfl⟩

theorem default_draws : loopRetryPolicy.draws 0 = true := by decide +kernel

theorem onward {s t u : PublishBackend} {a : Action}
    (h : (machine defaultConfig).Path Machine.anyStep s t) (hu : t.step defaultConfig a = some u) :
    (machine defaultConfig).Path Machine.anyStep s u :=
  h.snoc (a := a) trivial hu

/-- One round of the loop: the handler pauses, and the next connect raises. -/
theorem failing_round {n : Nat} {s : PublishBackend} (hn : n ≤ 1023) (hs : Failing n s) :
    ∃ t, (machine defaultConfig).Path Machine.anyStep s t ∧ Failing (n + 1) t := by
  obtain ⟨⟨th, hth, hpc, hconn⟩, hf, hstop, hq⟩ := hs
  obtain ⟨delay, hdelay⟩ := default_pauses hn
  have hnn : 0 ≤ delay := RetryPolicy.pause_nonneg hdelay
  let asleep : PublishBackend := { s with
    reconnectFailures := n + 1
    stats := s.stats.incReconnectAttempts
    thread := some { th with pc := .sleep (s.clock + delay) } }
  have hsleep : s.step defaultConfig (.io false 0) = some asleep := by
    simp [step, io, hth, hpc, handler, defaultConfig, default_draws, hf, add_assoc, hdelay, goto,
      asleep]
  let late : PublishBackend := { asleep with clock := s.clock + delay }
  have htick : asleep.step defaultConfig (.tick delay) = some late := by
    simp [step, hnn, asleep, late]
  let u : Thread := { th with
    pc := .top
    conn := none
    channels := []
    nextHeartbeat := late.clock + defaultConfig.heartbeat }
  have hwake : late.step defaultConfig (.io false 0) = some { late with thread := some u } := by
    simp [step, io, wake, closeConnection, hconn, goto, late, asleep, u]
  have htop : ({ late with thread := some u } : PublishBackend).step defaultConfig (.io false 0) =
      some { late with thread := some { u with pc := .connect } } := by
    simp [step, io, goto, late, asleep, u, hstop]
  have hraise : ({ late with thread := some { u with pc := .connect } } : PublishBackend).step
      defaultConfig (.io true 0) = some { late with thread := some { u with pc := .handler } } := by
    simp [step, io, connect, Connections.usable, goto, late, asleep, u]
  have hpath := onward (onward (.refl s) hsleep) htick
  have hpath := onward (onward (onward hpath hwake) htop) hraise
  exact ⟨_, hpath, ⟨_, rfl, rfl, rfl⟩, rfl, hstop, hq⟩

/-- The outage goes on. -/
theorem failing_reach : ∀ n ≤ 1024, ∃ s, (machine defaultConfig).Reach Machine.anyStep s ∧
    Failing n s := by
  intro n
  induction n with
  | zero => exact fun _ => ⟨firstFailure, firstFailure_reach, failing_firstFailure⟩
  | succ n ih =>
    intro hn
    obtain ⟨s, hs, hfail⟩ := ih (by omega)
    obtain ⟨t, hpath, ht⟩ := failing_round (by omega) hfail
    exact ⟨t, Machine.Path.trans hs hpath, ht⟩

/-- **With the default policy, a thread that fails to connect 1025 times in a row
ends**, though nobody asked it to. -/
theorem outage_kills : ∃ s t, (machine defaultConfig).Reach Machine.anyStep s ∧
    s.step defaultConfig (.io false 0) = some t ∧ s.stopEvent = false ∧ s.queue = [] ∧
    s.phase ≠ .out ∧ t.phase = .out ∧ t.escaped = some .overflowError := by
  obtain ⟨s, hs, ⟨th, hth, hpc, -⟩, hf, hstop, hq⟩ := failing_reach 1024 (Nat.le_refl _)
  have hlt : maxDouble < (2 : ℚ) ^ 1024 := by
    by_contra hle
    exact absurd ((two_pow_le_maxDouble_iff 1024).mp (not_lt.mp hle)) (by omega)
  have herr : loopRetryPolicy.pause ((1024 : Nat) + 2) 0 = .error .overflowError := by
    have hd := (RetryPolicy.delayForAttempt_eq_error_iff loopRetryPolicy_sane 1024 0 _).mpr
      ⟨hlt, rfl⟩
    unfold RetryPolicy.pause
    rw [hd]
  have hdead : s.step defaultConfig (.io false 0) = some { s with
      reconnectFailures := 1025
      stats := s.stats.incReconnectAttempts
      thread := some { th with pc := .dead (.escaped .overflowError) } } := by
    have herr' : loopRetryPolicy.pause 1026 0 = .error .overflowError := herr
    simp [step, io, hth, hpc, handler, defaultConfig, default_draws, hf, herr', goto]
  exact ⟨s, _, hs, hdead, hstop, hq, by simp [phase, hth, hpc], rfl, rfl⟩

end PublishBackend

end MqAdapters
