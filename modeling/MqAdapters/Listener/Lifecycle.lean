import MqAdapters.Listener.Direct

/-!
# Starting and stopping a listener

A `Listener` is a thread object.  `start_listening` starts it unless the flag
`__running` is set, which `run` sets itself, later and for good; a thread object
can be started once; and nothing clears `stop_me`.

* `Lifecycle`: the loop, with the calls of `start_listening` and `stop_listening`
  that one thread makes in any order.
* `StartCall.Usable`: the call did not raise, and after a stop it left a thread
  running that is not asked to stop.
* `usable_iff_timely`: which calls are usable, in every run.
-/

namespace MqAdapters

open Theory

open ListenerLoop

/-- A call of `start_listening`: what it found, and what it did. -/
structure StartCall where
  /-- `stop_listening` was called before -/
  stopped : Bool
  /-- the thread was started before and has not set `__running` -/
  launching : Bool
  /-- `Thread.start` raised `RuntimeError` -/
  raised : Bool
  /-- a thread runs that is not asked to stop -/
  serving : Bool
  deriving DecidableEq

/-- The loop and the thread object it runs on. -/
structure Lifecycle where
  loop : ListenerLoop
  /-- the thread has been started -/
  started : Bool
  /-- `stop_listening` has been called -/
  stopped : Bool
  calls : List StartCall

namespace Lifecycle

variable (self : Config)

def initial : Lifecycle := ⟨ListenerLoop.initial, false, false, []⟩

/-- The thread has been started, and `run` has not ended. -/
def alive (s : Lifecycle) : Bool :=
  s.started && match s.loop.pc with
    | .exited | .escaped _ => false
    | _ => true

/-- `Thread.start`, and whether it raises `RuntimeError`. -/
def startThread (s : Lifecycle) : Lifecycle × Bool :=
  if s.started then (s, true) else ({ s with started := true }, false)

/-- `start_listening`, and whether it raises. -/
def startListening (s : Lifecycle) : Lifecycle × Bool :=
  if !s.loop.running then s.startThread else (s, false)

/-- What is recorded of a call of `start_listening`. -/
def call (s : Lifecycle) : StartCall where
  stopped := s.stopped
  launching := s.started && !s.loop.running
  raised := s.startListening.2
  serving := s.startListening.1.alive && !s.startListening.1.loop.stopMe

inductive Action
  | startListening
  | loop (a : ListenerLoop.Action)

/-- The calls come from one thread, and the loop runs on a thread that has been
started. -/
def step (s : Lifecycle) : Action → Option Lifecycle
  | .startListening =>
    match s.loop.stopping with
    | .idle => some { s.startListening.1 with calls := s.calls ++ [s.call] }
    | _ => none
  | .loop (.io raises runs draw) =>
    if s.started then (s.loop.io self raises runs draw).map fun l => { s with loop := l } else none
  | .loop .callStop => s.loop.callStop.map fun l => { s with loop := l, stopped := true }
  | .loop a => (s.loop.step self a).map fun l => { s with loop := l }

def machine : Machine Lifecycle Action where
  init := initial
  step := step self

end Lifecycle

/-- What the lifecycle asks of a call. -/
def StartCall.Usable (c : StartCall) : Prop :=
  c.raised = false ∧ (c.stopped = true → c.serving = true)

/-- It comes before every stop, and not while the thread is started and has not set
`__running`. -/
def StartCall.timely (c : StartCall) : Bool := !c.stopped && !c.launching

namespace Lifecycle

variable {self : Config} {s t : Lifecycle}

/-! ## Nothing takes back a stop -/

theorem io_stopMe {s t : ListenerLoop} {raises runs : Bool} {draw : ℚ}
    (h : s.io self raises runs draw = some t) : t.stopMe = s.stopMe := by
  have hcases := io_cases h
  cases hpc : s.pc <;> simp only [hpc] at hcases
  case begin | clearChannel | clearConnection =>
    subst hcases
    rfl
  case retrySleep | sleep =>
    obtain ⟨-, rfl⟩ := hcases
    rfl
  case top | checkConnection | retry | checkChannel | handler | connecting | setup =>
    obtain ⟨-, rfl⟩ | ⟨-, rfl⟩ := hcases
    all_goals rfl
  case openChannel =>
    obtain ⟨-, rfl⟩ | ⟨c, -, -, rfl⟩ := hcases
    all_goals rfl
  case retryFailed attempt =>
    obtain ⟨-, rfl⟩ | ⟨-, ⟨e, -, rfl⟩ | ⟨delay, -, rfl⟩⟩ := hcases
    all_goals rfl
  case backoff level =>
    obtain ⟨e, -, rfl⟩ | ⟨delay, -, rfl⟩ := hcases
    all_goals rfl
  case closeChannel | closeConnection =>
    subst hcases
    simp
  case pump =>
    subst hcases
    unfold pump
    cases runs <;> cases raises <;> simp

/-- Once `stop_listening` has begun, `stop_me` is set, or is about to be. -/
def Asked (s : Lifecycle) : Prop :=
  s.stopped = true → s.loop.stopping = .set ∨ s.loop.stopMe = true

theorem asked_stop {l : ListenerLoop} (hs : Asked s) (h : s.loop.stop = some l) :
    Asked { s with loop := l } := by
  intro hstopped
  refine .inr ?_
  have hset : s.loop.stopping = .set → l.stopMe = true := by
    intro hset
    rw [ListenerLoop.stop, hset] at h
    cases h
    rfl
  rcases hs hstopped with hpc | hstop
  · exact hset hpc
  · obtain ⟨-, -, hsame | hpc⟩ := stop_shrinks h
    · rw [hsame, hstop]
    · exact hset hpc

theorem startListening_loop (s : Lifecycle) :
    s.startListening.1.loop = s.loop ∧ s.startListening.1.stopped = s.stopped := by
  unfold startListening startThread
  repeat' split
  all_goals exact ⟨rfl, rfl⟩

/-- **What a step does**: a call of `start_listening`, or a step of the loop that
is no such call. -/
theorem step_cases {a : Action} (h : s.step self a = some t) :
    (a = .startListening ∧ s.loop.stopping = .idle ∧
      t = { s.startListening.1 with calls := s.calls ++ [s.call] }) ∨
    (∃ b l, a = .loop b ∧ b ≠ .callStop ∧ s.loop.step self b = some l ∧ t = { s with loop := l }) ∨
    ∃ l, a = .loop .callStop ∧ s.loop.callStop = some l ∧
      t = { s with loop := l, stopped := true } := by
  cases a with
  | startListening =>
    simp only [step] at h
    split at h
    · next hidle => cases h; exact .inl ⟨rfl, hidle, rfl⟩
    · cases h
  | loop b =>
    cases b with
    | io raises runs draw =>
      simp only [step] at h
      split at h
      · obtain ⟨l, hl, rfl⟩ := Option.map_eq_some_iff.mp h
        exact .inr (.inl ⟨_, l, rfl, by simp, hl, rfl⟩)
      · cases h
    | callStop =>
      obtain ⟨l, hl, rfl⟩ := Option.map_eq_some_iff.mp h
      exact .inr (.inr ⟨l, rfl, hl, rfl⟩)
    | stop | tick =>
      obtain ⟨l, hl, rfl⟩ := Option.map_eq_some_iff.mp h
      exact .inr (.inl ⟨_, l, rfl, by simp, hl, rfl⟩)
    | lose | loseChannel =>
      cases h
      exact .inr (.inl ⟨_, _, rfl, by simp, rfl, rfl⟩)

theorem asked_step {a : Action} (hs : Asked s) (h : s.step self a = some t) : Asked t := by
  rcases step_cases h with ⟨-, -, rfl⟩ | ⟨b, l, -, hb, hl, rfl⟩ | ⟨l, -, hl, rfl⟩
  · obtain ⟨hloop, hstopped⟩ := startListening_loop s
    intro h
    rw [show _ = s.loop from hloop]
    exact hs (hstopped ▸ h)
  · have hkept : l.stopping = s.loop.stopping → l.stopMe = s.loop.stopMe →
        Asked { s with loop := l } := by
      intro hstopping hstopMe h
      dsimp only
      rw [hstopping, hstopMe]
      exact hs h
    cases b with
    | io raises runs draw => exact hkept (io_leaves hl).1.1 (io_stopMe hl)
    | callStop => exact absurd rfl hb
    | stop => exact asked_stop hs hl
    | tick dt =>
      obtain ⟨-, rfl⟩ := ListenerLoop.step_cases hl
      exact hkept rfl rfl
    | lose c => cases hl; exact hkept rfl rfl
    | loseChannel k => cases hl; exact hkept rfl rfl
  · intro _
    refine .inl ?_
    unfold ListenerLoop.callStop at hl
    split at hl <;> cases hl
    rfl

/-! ## Which calls are usable -/

/-- A call is usable exactly when it is timely. -/
def Recorded (c : StartCall) : Prop := c.Usable ↔ c.timely = true

theorem recorded_call (hs : Asked s) (hidle : s.loop.stopping = .idle) : Recorded s.call := by
  have hraised : s.startListening.2 = (s.started && !s.loop.running) := by
    unfold startListening startThread
    cases s.loop.running <;> cases s.started <;> rfl
  unfold Recorded StartCall.Usable StartCall.timely call
  rw [hraised, (startListening_loop s).1]
  cases hstopped : s.stopped with
  | false => cases s.started <;> simp
  | true =>
    have hstop : s.loop.stopMe = true := by
      rcases hs hstopped with hset | hstop
      · rw [hidle] at hset
        cases hset
      · exact hstop
    simp [hstop]

/-- Steps of which every call of `start_listening` is timely. -/
def timely (s : Lifecycle) : Action → Prop
  | .startListening => s.stopped = false ∧ (s.started && !s.loop.running) = false
  | .loop _ => True

/-- **In every run**, exactly the timely calls are usable; so when all calls are
timely, no call raises, and none after a stop leaves the listener without a
thread. -/
theorem usable_iff_timely (self : Config) :
    (∀ s, (machine self).Reach Machine.anyStep s →
      ((∀ c ∈ s.calls, c.Usable) ↔ ∀ c ∈ s.calls, c.timely = true)) ∧
    ∀ s, (machine self).Reach timely s → ∀ c ∈ s.calls, c.Usable := by
  have hrecorded : ∀ s, (machine self).Reach Machine.anyStep s → ∀ c ∈ s.calls, Recorded c := by
    intro s h
    refine (Machine.Reach.invariant (P := fun s => Asked s ∧ ∀ c ∈ s.calls, Recorded c) h
      ⟨(fun h => by cases h), fun c hc => by cases hc⟩ ?_).2
    rintro s a t - - ⟨hs, hcalls⟩ ht
    refine ⟨asked_step hs ht, ?_⟩
    rcases step_cases ht with ⟨-, hidle, rfl⟩ | ⟨b, l, -, -, -, rfl⟩ | ⟨l, -, -, rfl⟩
    · intro c hc
      rcases List.mem_append.mp hc with hc | hc
      · exact hcalls c hc
      · rw [List.mem_singleton.mp hc]
        exact recorded_call hs hidle
    · exact hcalls
    · exact hcalls
  refine ⟨fun s h => ?_, fun s h c hc => ?_⟩
  · exact forall₂_congr fun c hc => hrecorded s h c hc
  · refine (hrecorded s (h.mono fun _ _ _ => trivial) c hc).mpr ?_
    refine Machine.Path.invariant (P := fun s => ∀ c ∈ s.calls, c.timely = true) h
      (fun c hc => by cases hc) ?_ c hc
    intro s a t ha hcalls ht
    rcases step_cases ht with ⟨rfl, -, rfl⟩ | ⟨b, l, -, -, -, rfl⟩ | ⟨l, -, -, rfl⟩
    · intro c hc
      rcases List.mem_append.mp hc with hc | hc
      · exact hcalls c hc
      · rw [List.mem_singleton.mp hc]
        simp [StartCall.timely, call, ha.1, ha.2]
    · exact hcalls
    · exact hcalls

/-- A second call once `run` has set `__running`. -/
def startedAgain : Lifecycle :=
  ((machine defaultConfig).runIn (fun _ _ => true) initial
    [.startListening, .loop (.io false false 0), .startListening]).getD initial

theorem usable_iff_timely_again : ∀ c ∈ startedAgain.calls, c.Usable :=
  ((usable_iff_timely defaultConfig).1 startedAgain
    ((Machine.path_of_isSome (c := fun _ _ => true) (by decide +kernel) initial).mono
      fun _ _ _ => trivial)).mpr (by decide +kernel)

/-- Two calls before `run` has set `__running`. -/
def startedTwice : Lifecycle :=
  ((machine defaultConfig).runIn (fun _ _ => true) initial
    [.startListening, .startListening]).getD initial

/-- A whole `stop_listening`, between two calls on a running thread. -/
def restarted : Lifecycle :=
  ((machine defaultConfig).runIn (fun _ _ => true) initial
    ([.startListening, .loop (.io false false 0), .loop .callStop] ++
      List.replicate 5 (.loop .stop) ++ [.startListening])).getD initial

/-- **The second call raises**, and after a stop the third leaves no thread that is
not asked to stop. -/
theorem start_unusable :
    (∃ s, (machine defaultConfig).Reach Machine.anyStep s ∧ s.stopped = false ∧
      ∃ c ∈ s.calls, c.raised = true) ∧
    ∃ s, (machine defaultConfig).Reach Machine.anyStep s ∧
      ∃ c ∈ s.calls, c.raised = false ∧ c.stopped = true ∧ c.serving = false := by
  have htwice : (machine defaultConfig).Reach Machine.anyStep startedTwice :=
    (Machine.path_of_isSome (c := fun _ _ => true) (by decide +kernel) initial).mono
      fun _ _ _ => trivial
  have hagain : (machine defaultConfig).Reach Machine.anyStep restarted :=
    (Machine.path_of_isSome (c := fun _ _ => true) (by decide +kernel) initial).mono
      fun _ _ _ => trivial
  refine ⟨⟨startedTwice, htwice, by decide +kernel, ⟨false, true, true, true⟩, ?_, rfl⟩,
    restarted, hagain, ⟨true, false, false, false⟩, ?_, rfl, rfl, rfl⟩
  · decide +kernel
  · decide +kernel

end Lifecycle

end MqAdapters
