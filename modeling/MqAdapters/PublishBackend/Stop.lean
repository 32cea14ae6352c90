import MqAdapters.PublishBackend.Drain

/-!
# What a stop leaves behind

`stop` sets the event before it wakes the loop, and the loop looks at the event
before it looks at the queue.  So a stopped loop takes at most one more request,
and only if it was already past its look at the event.

`stop_drains_iff`: when the loop has ended, the requests accepted before the
call of `stop` have been passed to `basic_publish` exactly when they were within
reach as the event was set.  `stop_drops_request` is a run in which they were
not.
-/

namespace MqAdapters

open Python Theory

namespace PublishBackend

variable {self : Config} {s s' t : PublishBackend}

/-- The connection factory, `channel()` and `basic_publish` do not raise. -/
def steady (s : PublishBackend) : Action → Bool
  | .io raises _ => match s.thread with
    | some th => match th.pc with
      | .connect | .openChannels | .serve _ => !raises
      | _ => true
    | none => true
  | _ => true

/-- The steps that lead to the end of the loop: steady, and no new start. -/
def closing (s : PublishBackend) (a : Action) : Bool :=
  steady s a && match a with
    | .start => false
    | _ => true

theorem accounted_of_path {c : PublishBackend → Action → Prop} (h : (machine self).Path c s t)
    (hw : Wellformed self s) (ha : (view s).Accounted) :
    Wellformed self t ∧ (view t).Accounted := by
  obtain ⟨hwt, hp⟩ := h.simulate (N := Consumer.machine _) (d := fun _ _ => True)
    (f := view) (l := move self) (wellformed_step self) (view_step self)
    (fun _ _ _ _ _ _ => trivial) hw
  exact ⟨hwt, Consumer.accounted_path hp ha⟩

/-- The initial backend is wellformed, and nothing has been accepted. -/
theorem accounted_of_reach {c : PublishBackend → Action → Prop} (h : (machine self).Reach c s) :
    Wellformed self s ∧ (view s).Accounted :=
  accounted_of_path h ⟨fun _ h => absurd h (by simp [machine, initial]),
    fun h => absurd h (by simp [machine, initial])⟩ rfl

/-- Every step of a closing run is a move of a consumer that runs out. -/
theorem outgoing_of_closing (self : Config) (s : PublishBackend) (a : Action)
    (m : Consumer.Move PublishRequest) (hc : closing s a = true) (hm : move self s a = some m) :
    Consumer.Outgoing m := by
  cases a with
  | io raises draw =>
    obtain ⟨th, hth, hm⟩ := Option.bind_eq_some_iff.mp hm
    simp only [closing, steady, hth, Bool.and_true] at hc
    unfold ioMove at hm
    split at hm
    case h_2 hpc => simp_all
    case h_3 hpc => simp_all
    all_goals repeat' split at hm
    all_goals
      cases hm
      try trivial
  | start => exact absurd hc (by simp [closing])
  | stop i =>
    obtain ⟨call, -, hm⟩ := Option.bind_eq_some_iff.mp hm
    repeat' split at hm
    all_goals
      cases hm
      try trivial
  | publish i =>
    obtain ⟨r, -, rfl⟩ := Option.map_eq_some_iff.mp hm
    trivial
  | callStart | callStop | callPublish | tick | lose => exact absurd hm (by simp [move])

/-- A stop counts no more requests than have been accepted. -/
def Marked (s : PublishBackend) : Prop := ∀ call ∈ s.stopping, call.mark ≤ s.accepted.length

/-- A call of `stop` keeps its mark. -/
theorem mark_of_stop {i : Nat} (h : s.stop self i = some t) {call : StopCall}
    (hcall : call ∈ t.stopping) : ∃ call' ∈ s.stopping, call'.mark = call.mark := by
  obtain ⟨cur, hcur, h⟩ := Option.bind_eq_some_iff.mp h
  have hmem := List.mem_of_getElem? hcur
  have hdone : ∀ {s' : PublishBackend}, s'.stopping = s.stopping →
      call ∈ (s'.stopDone i).stopping → ∃ call' ∈ s.stopping, call'.mark = call.mark := by
    intro s' hs' hc
    exact ⟨call, hs' ▸ List.mem_of_mem_eraseIdx hc, rfl⟩
  have hset : ∀ {s' : PublishBackend} {pc}, s'.stopping = s.stopping →
      call ∈ (s'.stopAt i cur pc).stopping → ∃ call' ∈ s.stopping, call'.mark = call.mark := by
    intro s' pc hs' hc
    rcases List.mem_or_eq_of_mem_set hc with hc | rfl
    · exact ⟨call, hs' ▸ hc, rfl⟩
    · exact ⟨cur, hmem, rfl⟩
  obtain ⟨pc, wait, mark⟩ := cur
  cases pc <;> simp only at h
  all_goals
    repeat' split at h
    all_goals cases h
  all_goals first
    | exact hdone rfl hcall
    | exact hset rfl hcall

theorem marked_step (self : Config) (s : PublishBackend) (a : Action) (t : PublishBackend)
    (hm : Marked s) (h : s.step self a = some t) : Marked t := by
  have hc := step_cases h
  cases a with
  | io raises draw =>
    obtain ⟨th, hth, h⟩ := hc
    have hf := io_frame h
    unfold Marked
    rw [hf.stopping, hf.accepted]
    exact hm
  | callStart => obtain ⟨-, ⟨-, rfl⟩ | ⟨-, rfl⟩⟩ := hc <;> exact hm
  | start => obtain ⟨-, rfl⟩ | ⟨-, rfl⟩ := hc <;> exact hm
  | callStop wait =>
    obtain rfl : t = _ := hc
    intro call hcall
    rcases List.mem_append.mp hcall with hcall | hcall
    · exact hm call hcall
    · rw [List.mem_singleton.mp hcall]
      exact Nat.le_refl _
  | stop i =>
    intro call hcall
    obtain ⟨call', hmem, hmark⟩ := mark_of_stop h hcall
    obtain ⟨_, _, _, rfl⟩ := exists_stop h
    rw [← hmark]
    exact hm call' hmem
  | callPublish | lose => obtain rfl : t = _ := hc; exact hm
  | publish i =>
    obtain ⟨r, -, rfl⟩ := hc
    intro call hcall
    have := hm call hcall
    simp only [List.length_append]
    omega
  | tick dt => obtain ⟨-, rfl⟩ := hc; exact hm

theorem marked_of_reach {c : PublishBackend → Action → Prop} (h : (machine self).Reach c s) :
    Marked s :=
  h.invariant (P := Marked) (fun _ hcall => absurd hcall List.not_mem_nil)
    fun s a t _ _ hm ht => marked_step self s a t hm ht

/-- How many of the accepted requests are still passed to `basic_publish` once
the event is set: those passed already, the one in hand, and the head of the
queue if the loop has looked at the event and not yet at the queue. -/
def withinReach (s : PublishBackend) : Nat := (view s).reach

/-- The `i`-th call of `stop` finds or sets the stop event. -/
structure Stops (config : Config) (s : PublishBackend) (i : Nat) (call : StopCall)
    (t : PublishBackend) : Prop where
  underWay : s.stopping[i]? = some call
  atEvent : call.pc = .check ∨ call.pc = .set
  goesOn : s.step config (.stop i) = some t
  stopEvent : t.stopEvent = true

theorem Stops.view_eq {i : Nat} {call : StopCall} (h : Stops self s i call s') :
    s'.withinReach = s.withinReach ∧ s'.accepted = s.accepted := by
  have hstep := h.goesOn
  simp only [PublishBackend.step, stop, h.underWay, Option.bind_some] at hstep
  rcases h.atEvent with hpc | hpc <;> simp only [hpc] at hstep
  · split at hstep
    all_goals
      cases hstep
      exact ⟨rfl, rfl⟩
  · cases hstep
    exact ⟨rfl, rfl⟩

/-- **What a stop drains.**  Once the loop has ended, the requests accepted
before the call of `stop` have all been passed to `basic_publish` exactly when
they were within reach as the event was set. -/
theorem stop_drains_iff (hs : (machine self).Reach Machine.anyStep s) {i : Nat} {call : StopCall}
    (hstop : Stops self s i call s')
    (ht : (machine self).Path (fun s a => closing s a = true) s' t) (hout : t.phase = .out) :
    s.accepted.take call.mark <+: t.passed.map (·.request) ↔ call.mark ≤ s.withinReach := by
  have hs' : (machine self).Reach Machine.anyStep s' := hs.snoc (a := .stop i) trivial hstop.goesOn
  obtain ⟨hw, ha⟩ := accounted_of_reach hs'
  obtain ⟨hreach, hacc⟩ := hstop.view_eq
  have hmark := marked_of_reach hs call (List.mem_of_getElem? hstop.underWay)
  obtain ⟨-, hpath⟩ := ht.simulate (N := Consumer.machine _)
    (d := fun _ m => Consumer.Outgoing m) (f := view) (l := move self)
    (wellformed_step self) (view_step self)
    (fun s a m _ hc hm => outgoing_of_closing self s a m hc hm) hw
  have := Consumer.passed_iff_le_reach hpath hstop.stopEvent ha hout (n := call.mark)
    (show call.mark ≤ s'.accepted.length by rw [hacc]; exact hmark)
  rw [← hreach, ← hacc]
  exact this

/-! ## A run that drops a request -/

/-- A backend with the defaults of `__init__`. -/
def defaultConfig : Config where
  exchange := "events"
  defaultRoutingKey := "all"
  channels := 4
  confirmDelivery := false
  queueMaxsize := 0
  heartbeatInterval := 1
  reconnectRetryPolicy := loopRetryPolicy

/-- `start`, one `publish`, and a `stop` up to the point where it sets the event;
the loop is at its head. -/
def beforeSet : PublishBackend :=
  (((machine defaultConfig).runIn (fun _ _ => true) initial
    [.callStart, .start, .start, .callPublish [1] none, .publish 0, .callStop true, .stop 0])).getD
      initial

def afterSet : PublishBackend := (beforeSet.step defaultConfig (.stop 0)).getD initial

/-- The loop finds the event and ends. -/
def afterLoop : PublishBackend :=
  ((machine defaultConfig).runIn closing afterSet [.io false 0]).getD initial

theorem beforeSet_reach : (machine defaultConfig).Reach Machine.anyStep beforeSet :=
  (Machine.path_of_runIn (c := fun _ _ => true) (show (machine defaultConfig).runIn
    (fun _ _ => true) initial [.callStart, .start, .start, .callPublish [1] none, .publish 0,
      .callStop true, .stop 0] = some beforeSet from rfl)).mono fun _ _ _ => trivial

theorem afterSet_stops : Stops defaultConfig beforeSet 0 ⟨.set, true, 1⟩ afterSet where
  underWay := rfl
  atEvent := Or.inr rfl
  goesOn := rfl
  stopEvent := rfl

theorem afterLoop_path :
    (machine defaultConfig).Path (fun s a => closing s a = true) afterSet afterLoop :=
  Machine.path_of_runIn (show (machine defaultConfig).runIn closing afterSet [.io false 0] =
    some afterLoop from rfl)

theorem stop_drains_iff_run :
    beforeSet.accepted.take 1 <+: afterLoop.passed.map (·.request) ↔ 1 ≤ beforeSet.withinReach :=
  stop_drains_iff beforeSet_reach afterSet_stops afterLoop_path rfl

/-- A request accepted before the call of `stop` is left behind. -/
theorem stop_drops_request : ∃ s s' t i call,
    (machine defaultConfig).Reach (fun s a => steady s a = true) s ∧
    Stops defaultConfig s i call s' ∧
    (machine defaultConfig).Path (fun s a => closing s a = true) s' t ∧ t.phase = .out ∧
    ¬ s.accepted.take call.mark <+: t.passed.map (·.request) :=
  ⟨beforeSet, afterSet, afterLoop, 0, ⟨.set, true, 1⟩,
    Machine.path_of_runIn (show (machine defaultConfig).runIn steady initial
      [.callStart, .start, .start, .callPublish [1] none, .publish 0, .callStop true, .stop 0] =
        some beforeSet from rfl),
    afterSet_stops, afterLoop_path, rfl, by
      intro h
      exact absurd h.length_le (by decide)⟩

end PublishBackend

end MqAdapters
