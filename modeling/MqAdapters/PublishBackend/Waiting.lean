import MqAdapters.PublishBackend.Pool
import MqAdapters.PublishBackend.Restart

/-!
# Who still waits once the backend is stopped

The I/O thread waits in `queue.get` while the queue is empty, and a publisher waits
in `queue.put` while it is full.  A stop has to reach both.

* `no_lost_wakeup`: when every `stop` is done with its attempts to queue a sentinel,
  the thread that is in `queue.get` does not find the queue empty.
* `Stranded`: the thread has left `_run`, nothing starts another, and a publisher
  waits for room.
* `never_stranded`: not in runs whose steps are all `roomy`; after a step that is not,
  the publishers that are there strand one of them (`roomy_iff`).
-/

namespace MqAdapters

open Python Theory

namespace PublishBackend

variable {self : Config} {s t u : PublishBackend}

/-! ## The thread waits for an item -/

/-- `stop` has set the event and has not given up to queue its sentinel. -/
def StopPc.puts : StopPc → Bool
  | .putNowait | .put _ => true
  | _ => false

/-- `stop` has not looked at the event, or is about to set it. -/
def StopPc.asks : StopPc → Bool
  | .check | .set => true
  | _ => false

/-- `stop` is about to set the event. -/
def StopPc.sets : StopPc → Bool
  | .set => true
  | _ => false

/-- `stop` has finished trying to queue its sentinel. -/
def StopPc.tried : StopPc → Bool
  | .wait | .join _ _ => true
  | _ => false

/-- With the event set, a sentinel is still to come, or the thread does not wait on
an empty queue. -/
def Wakes (s : PublishBackend) : Prop :=
  s.stopEvent = true → (∃ call ∈ s.stopping, call.pc.puts = true) ∨
    (s.phase = .taking → s.queue ≠ [])

/-- A stop is about to set the event if that is not set, or no thread is alive. -/
def Heard (s : PublishBackend) : Prop :=
  s.alive = true → s.stopEvent = true ∨ ∃ call ∈ s.stopping, call.pc.asks = true

theorem not_nil_of_full {α : Type} {q : List α} (h : self.full q = true) : q ≠ [] := by
  rintro rfl
  simp only [Config.full, List.length_nil, Bool.and_eq_true, decide_eq_true_eq] at h
  omega

/-- Steps that are none of `stop`. -/
theorem Wakes.aside {a : Action} (hw : Wellformed self s) (h : Wakes s)
    (ht : s.step self a = some t) (hstop : t.stopping = s.stopping)
    (hflag : t.stopEvent = true → s.stopEvent = true) : Wakes t := by
  intro hset
  refine (h (hflag hset)).imp (fun hcall => hstop ▸ hcall) ?_
  intro hq hphase
  have hview := view_step self s a t hw ht
  cases hm : move self s a with
  | none =>
    rw [hm] at hview
    have hsame : view t = view s := hview
    have hqueue : t.queue = s.queue := congrArg Consumer.queue hsame
    rw [hqueue]
    exact hq ((congrArg Consumer.phase hsame).symm.trans hphase)
  | some m =>
    rw [hm] at hview
    obtain ⟨htaking, hprefix⟩ := Consumer.taking_of_flag hview (hflag hset) hphase
    intro hnil
    exact hq htaking (List.prefix_nil.mp (hnil ▸ hprefix))

/-- What a step of `stop` does to the queue, to the event and to its own place. -/
theorem stop_cases {i : Nat} (h : s.stop self i = some t) : ∃ call, s.stopping[i]? = some call ∧
    match call.pc with
    | .check => (s.stopEvent = true ∧ t = s.stopDone i) ∨
        (s.stopEvent = false ∧ t = s.stopAt i call .set)
    | .set => t = { s with stopEvent := true }.stopAt i call .putNowait
    | .putNowait => (self.full s.queue = true ∧ t = s.stopAt i call (.put (s.clock + 1))) ∨
        (self.full s.queue = false ∧
          t = { s with queue := s.queue ++ [none] }.stopAt i call .wait)
    | .put _ => (self.full s.queue = true ∧ t = s.stopAt i call .wait) ∨
        (self.full s.queue = false ∧
          t = { s with queue := s.queue ++ [none] }.stopAt i call .wait)
    | .wait => (t = s.stopAt i call (.join s.threads (s.clock + 10))) ∨ t = s.stopDone i
    | .join _ _ => t = s.stopDone i := by
  obtain ⟨call, hcall, h⟩ := Option.bind_eq_some_iff.mp h
  refine ⟨call, hcall, ?_⟩
  cases hpc : call.pc <;> simp only [hpc] at h ⊢
  case check => cases hs : s.stopEvent <;> simp_all
  case set => exact (Option.some.inj h).symm
  case putNowait => cases hf : self.full s.queue <;> simp_all
  case put deadline =>
    cases hf : self.full s.queue
    · simp_all
    · simp only [hf, Bool.not_true, Bool.false_eq_true, if_false] at h
      split at h <;> simp_all
  case wait => split at h <;> simp_all
  case join => split at h <;> simp_all

/-- Who is about to put a sentinel still is, unless it was its step. -/
theorem puts_kept (pc : StopPc) {i : Nat} {call x : StopCall} (hi : s.stopping[i]? = some call)
    (hcall : call.pc.puts = false) (hx : x ∈ s.stopping) (hputs : x.pc.puts = true) :
    x ∈ (s.stopAt i call pc).stopping ∧ x ∈ (s.stopDone i).stopping := by
  have hne : x ≠ call := by
    rintro rfl
    rw [hcall] at hputs
    cases hputs
  exact ⟨mem_set_of_ne hi hx hne, mem_eraseIdx_of_ne hi hx hne⟩

theorem mem_stopAt {i : Nat} {call : StopCall} {pc : StopPc} (hi : s.stopping[i]? = some call) :
    { call with pc := pc } ∈ (s.stopAt i call pc).stopping :=
  List.mem_of_getElem? (List.getElem?_set_self (List.getElem?_eq_some_iff.mp hi).1)

theorem Wakes.stop {i : Nat} (h : Wakes s) (ht : s.stop self i = some t) : Wakes t := by
  intro hset
  obtain ⟨call, hi, hc⟩ := stop_cases ht
  -- a call that leaves the queue and the event alone, and is not about to put
  have hother : call.pc.puts = false → s.stopEvent = true → s.queue = t.queue →
      s.phase = t.phase → (∀ x ∈ s.stopping, x.pc.puts = true → x ∈ t.stopping) →
      (∃ call ∈ t.stopping, call.pc.puts = true) ∨ (t.phase = .taking → t.queue ≠ []) := by
    intro hcall hs hqueue hphase hmem
    rw [← hqueue, ← hphase]
    exact (h hs).imp_left fun ⟨x, hx, hputs⟩ => ⟨x, hmem x hx hputs, hputs⟩
  cases hpc : call.pc <;> simp only [hpc] at hc
  case check =>
    obtain ⟨hs, rfl⟩ | ⟨hs, rfl⟩ := hc
    · exact hother (by rw [hpc]; rfl) hs rfl rfl
        fun x hx hp => (puts_kept .wait hi (by rw [hpc]; rfl) hx hp).2
    · rw [show s.stopEvent = true from hset] at hs
      cases hs
  case set =>
    obtain rfl : t = _ := hc
    exact .inl ⟨_, mem_stopAt (s := { s with stopEvent := true }) hi, rfl⟩
  case putNowait =>
    obtain ⟨-, rfl⟩ | ⟨-, rfl⟩ := hc
    · exact .inl ⟨_, mem_stopAt hi, rfl⟩
    · exact .inr fun _ => List.append_ne_nil_of_right_ne_nil _ (by simp)
  case put deadline =>
    obtain ⟨hfull, rfl⟩ | ⟨-, rfl⟩ := hc
    · exact .inr fun _ => not_nil_of_full hfull
    · exact .inr fun _ => List.append_ne_nil_of_right_ne_nil _ (by simp)
  case wait =>
    obtain rfl | rfl := hc
    · exact hother (by rw [hpc]; rfl) hset rfl rfl
        fun x hx hp => (puts_kept _ hi (by rw [hpc]; rfl) hx hp).1
    · exact hother (by rw [hpc]; rfl) hset rfl rfl
        fun x hx hp => (puts_kept .wait hi (by rw [hpc]; rfl) hx hp).2
  case join =>
    obtain rfl : t = _ := hc
    exact hother (by rw [hpc]; rfl) hset rfl rfl
      fun x hx hp => (puts_kept .wait hi (by rw [hpc]; rfl) hx hp).2

theorem wakes_step {a : Action} (hw : Wellformed self s) (h : Wakes s)
    (ht : s.step self a = some t) : Wakes t := by
  have hc := step_cases ht
  cases a with
  | io raises draw =>
    obtain ⟨th, -, hio⟩ := hc
    have hframe := io_frame hio
    exact h.aside hw ht hframe.stopping fun hs => hframe.stopEvent ▸ hs
  | callStart =>
    obtain ⟨-, ⟨-, rfl⟩ | ⟨-, rfl⟩⟩ := hc
    all_goals exact h.aside hw ht rfl id
  | start =>
    obtain ⟨-, rfl⟩ | ⟨-, rfl⟩ := hc
    · exact nofun
    · exact h.aside hw ht rfl id
  | callStop wait =>
    obtain rfl : t = _ := hc
    intro hset
    exact (h hset).imp_left fun ⟨x, hx, hputs⟩ => ⟨x, List.mem_append_left _ hx, hputs⟩
  | stop i => exact h.stop hc
  | callPublish => obtain rfl : t = _ := hc; exact h.aside hw ht rfl id
  | publish i => obtain ⟨r, -, rfl⟩ := hc; exact h.aside hw ht rfl id
  | tick dt => obtain ⟨-, rfl⟩ := hc; exact h.aside hw ht rfl id
  | lose c => obtain rfl : t = _ := hc; exact h.aside hw ht rfl id

theorem wakes_of_reach {c : PublishBackend → Action → Prop} (h : (machine self).Reach c s) :
    Wakes s := by
  refine Machine.Reach.invariant h nofun ?_
  exact fun s a t hr _ hs ht => wakes_step (accounted_of_reach hr).1 hs ht

theorem Heard.stop {i : Nat} (h : Heard s) (ht : s.stop self i = some t) : Heard t := by
  intro halive
  have hor := h (by
    obtain ⟨_, _, _, rfl⟩ := exists_stop ht
    exact halive)
  obtain ⟨call, hi, hc⟩ := stop_cases ht
  -- a call that does not ask moves on, and the event stays
  have hother : call.pc.asks = false → t.stopEvent = s.stopEvent →
      (∀ x ∈ s.stopping, x ≠ call → x ∈ t.stopping) →
      t.stopEvent = true ∨ ∃ call ∈ t.stopping, call.pc.asks = true := by
    intro hcall hevent hmem
    rw [hevent]
    refine hor.imp_right ?_
    rintro ⟨x, hx, hasks⟩
    refine ⟨x, hmem x hx ?_, hasks⟩
    rintro rfl
    rw [hcall] at hasks
    cases hasks
  cases hpc : call.pc <;> simp only [hpc] at hc
  case check =>
    obtain ⟨hs, rfl⟩ | ⟨-, rfl⟩ := hc
    · exact .inl hs
    · exact .inr ⟨_, mem_stopAt hi, rfl⟩
  case set =>
    obtain rfl : t = _ := hc
    exact .inl rfl
  case putNowait | put =>
    obtain ⟨-, rfl⟩ | ⟨-, rfl⟩ := hc
    all_goals exact hother (by rw [hpc]; rfl) rfl fun x hx hne => mem_set_of_ne hi hx hne
  case wait =>
    obtain rfl | rfl := hc
    · exact hother (by rw [hpc]; rfl) rfl fun x hx hne => mem_set_of_ne hi hx hne
    · exact hother (by rw [hpc]; rfl) rfl fun x hx hne => mem_eraseIdx_of_ne hi hx hne
  case join =>
    obtain rfl : t = _ := hc
    exact hother (by rw [hpc]; rfl) rfl fun x hx hne => mem_eraseIdx_of_ne hi hx hne

theorem heard_step {a : Action} (hw : Wellformed self s) (hsame : sameRun s a) (h : Heard s)
    (ht : s.step self a = some t) : Heard t := by
  have hc := step_cases ht
  cases a with
  | io raises draw =>
    obtain ⟨th, hth, hio⟩ := hc
    have hframe := io_frame hio
    have halive : s.alive = true := by
      rw [alive, hth]
      exact (io_pooled (hw.pooled th hth) hio).1
    intro _
    rw [hframe.stopEvent, hframe.stopping]
    exact h halive
  | callStart =>
    obtain ⟨-, ⟨-, rfl⟩ | ⟨-, rfl⟩⟩ := hc
    all_goals exact h
  | start =>
    obtain ⟨hs, rfl⟩ | ⟨hs, -⟩ := hc
    · intro halive
      have hdead : s.alive = false := hw.starting (by simp [hs])
      exact absurd (show s.alive = true from halive) (by simp [hdead])
    · exact absurd hs hsame
  | callStop wait =>
    obtain rfl : t = _ := hc
    intro halive
    rcases h halive with h | ⟨x, hx, hasks⟩
    · exact .inl h
    · exact .inr ⟨x, List.mem_append_left _ hx, hasks⟩
  | stop i => exact h.stop hc
  | callPublish | lose => obtain rfl : t = _ := hc; exact h
  | publish i => obtain ⟨r, -, rfl⟩ := hc; exact h
  | tick dt => obtain ⟨-, rfl⟩ := hc; exact h

/-- **No lost wakeup**: `stop` is called, and no other thread is started.  When every
call of `stop` has finished trying to queue its sentinel, the thread that is in
`queue.get` does not wait on an empty queue. -/
theorem no_lost_wakeup {wait : Bool} (hs : (machine self).Reach Machine.anyStep s)
    (hu : (machine self).Path sameRun (s.callStop wait) u)
    (htried : ∀ call ∈ u.stopping, call.pc.tried = true) {th : Thread} {timeout deadline : Option ℚ}
    (hth : u.thread = some th) (hpc : th.pc = .get timeout deadline) : u.queue ≠ [] := by
  have hcalled : (machine self).Reach Machine.anyStep (s.callStop wait) :=
    hs.snoc (a := .callStop wait) trivial rfl
  have hreach : (machine self).Reach Machine.anyStep u :=
    Machine.Path.trans hcalled (hu.mono fun _ _ _ => trivial)
  have hheard : Wellformed self u ∧ Heard u := by
    have hasks : (⟨.check, wait, s.accepted.length⟩ : StopCall) ∈ (s.callStop wait).stopping :=
      List.mem_append_right _ (List.mem_singleton.mpr rfl)
    refine Machine.Path.invariant (P := fun s => Wellformed self s ∧ Heard s) hu
      ⟨(accounted_of_reach hcalled).1, fun _ => .inr ⟨_, hasks, rfl⟩⟩ ?_
    rintro s a t hsame ⟨hw, hh⟩ ht
    exact ⟨wellformed_step self s a t hw ht, heard_step hw hsame hh ht⟩
  have hnot : ∀ call ∈ u.stopping, call.pc.puts = false ∧ call.pc.asks = false := by
    intro call hcall
    have ht := htried call hcall
    cases hpc : call.pc <;> simp_all [StopPc.tried, StopPc.puts, StopPc.asks]
  have hset : u.stopEvent = true := by
    rcases hheard.2 (by simp [alive, hth, Thread.alive, hpc]) with hset | ⟨call, hcall, hasks⟩
    · exact hset
    · rw [(hnot call hcall).2] at hasks
      cases hasks
  rcases wakes_of_reach hreach hset with ⟨call, hcall, hputs⟩ | hqueue
  · rw [(hnot call hcall).1] at hputs
    cases hputs
  · exact hqueue (by simp [phase, hth, hpc])

/-- The thread waits for its first item, without a timeout. -/
def parked : PublishBackend :=
  ((machine quietConfig).runIn (fun _ _ => true) initial
    ([.callStart, .start, .start] ++ List.replicate 5 (.io false 0))).getD initial

/-- `stop` has queued its sentinel. -/
def woken : PublishBackend :=
  ((machine quietConfig).runIn (fun s _ => s.starting.isNone) (parked.callStop true)
    [.stop 0, .stop 0, .stop 0]).getD initial

theorem no_lost_wakeup_parked : woken.queue ≠ [] := by
  have hparked : (machine quietConfig).Reach Machine.anyStep parked :=
    (Machine.path_of_runIn (c := fun _ _ => true) (show (machine quietConfig).runIn
      (fun _ _ => true) initial ([.callStart, .start, .start] ++ List.replicate 5 (.io false 0)) =
        some parked from rfl)).mono fun _ _ _ => trivial
  have hwoken : (machine quietConfig).Path sameRun (parked.callStop true) woken := by
    refine (Machine.path_of_runIn (show (machine quietConfig).runIn (fun s _ => s.starting.isNone)
      (parked.callStop true) [.stop 0, .stop 0, .stop 0] = some woken from rfl)).mono ?_
    intro s a hnone
    cases a <;> simp_all [sameRun]
  have htried : ∀ call ∈ woken.stopping, call.pc.tried = true := by
    intro call hcall
    obtain rfl : call = ⟨.wait, true, 0⟩ := List.mem_singleton.mp hcall
    rfl
  exact no_lost_wakeup hparked hwoken htried rfl rfl

/-! ## A publisher waits for room -/

/-- How many items the bounded queue holds. -/
def Config.capacity (self : Config) : Nat := (max 0 self.queueMaxsize).toNat

/-- The items that are queued or wait for room. -/
def load (s : PublishBackend) : Nat := s.queue.length + s.publishing.length

/-- Whether the thread that exits so exits after a stop. -/
def Exit.byStop (stopEvent : Bool) : Exit → Bool
  | .stopEvent | .sentinel => true
  | .escaped _ => stopEvent

def Pc.stopped (stopEvent : Bool) : Pc → Bool
  | .dead exit => exit.byStop stopEvent
  | _ => false

theorem Pc.stopped.of_set {stopEvent : Bool} {pc : Pc} (h : pc.stopped stopEvent = true) :
    pc.stopped true = true := by
  rcases pc with _ | _ | _ | _ | _ | _ | _ | _ | _ | _ | _ | exit
  case dead => cases exit <;> rfl
  all_goals exact h

/-- The thread has exited after a stop, and no other is being started. -/
def ended (s : PublishBackend) : Bool :=
  s.starting.isNone && s.thread.any (·.pc.stopped s.stopEvent)

/-- A publisher waits for room in a queue that nobody takes from. -/
def Stranded (self : Config) (s : PublishBackend) : Prop :=
  s.ended = true ∧ s.publishing ≠ [] ∧ self.full s.queue = true

/-- There is room for all who publish: the thread exits, or is stopped too late,
only with room for those who wait, and after that nobody publishes and no sentinel is
queued unless there is room for one more. -/
def roomy (self : Config) (s : PublishBackend) : Action → Bool
  | .io _ draw => match s.thread.map Thread.pc with
    | some (.cleanup exit) => !exit.byStop s.stopEvent || s.load ≤ self.capacity
    | some .handler => !s.stopEvent || s.load ≤ self.capacity ||
        (self.reconnectRetryPolicy.pause (s.reconnectFailures + 2) draw).isOk
    | _ => true
  | .callPublish _ _ => !s.ended || s.load < self.capacity
  | .stop i => (s.stopping[i]?).all fun call =>
      (!call.pc.sets || !{ s with stopEvent := true }.ended || s.load ≤ self.capacity) &&
        (!call.pc.puts || !s.ended || self.full s.queue || s.load < self.capacity)
  | _ => true

/-- Once the thread has exited there is room for all who wait. -/
def Roomy (self : Config) (s : PublishBackend) : Prop := s.ended = true → s.load ≤ self.capacity

theorem Roomy.not_stranded (h : Roomy self s) : ¬ Stranded self s := by
  rintro ⟨hended, hwaits, hfull⟩
  have hload := h hended
  have hpos : 0 < s.publishing.length := List.length_pos_iff.mpr hwaits
  have hcap : self.capacity ≤ s.queue.length := by
    simp only [Config.full, Bool.and_eq_true, decide_eq_true_eq] at hfull
    exact hfull.2
  unfold load at hload
  omega

/-- With which step the thread exits. -/
theorem exits_of_stopped {th : Thread} {raises : Bool} {draw : ℚ}
    (h : s.io self th raises draw = some t) (ht : t.thread.any (·.pc.stopped t.stopEvent) = true) :
    t.load = s.load ∧ ((∃ exit, th.pc = .cleanup exit ∧ exit.byStop s.stopEvent = true) ∨
      th.pc = .handler ∧ s.stopEvent = true ∧
        ∃ e, self.reconnectRetryPolicy.pause (s.reconnectFailures + 2) draw = .error e) := by
  obtain ⟨th', hth', hstopped⟩ := (Option.any_eq_true _ _).mp ht
  obtain ⟨exit, hpc', hby⟩ : ∃ exit, th'.pc = .dead exit ∧ exit.byStop t.stopEvent = true := by
    unfold Pc.stopped at hstopped
    split at hstopped
    · next exit hpc' => exact ⟨exit, hpc', hstopped⟩
    · cases hstopped
  rw [(io_frame h).stopEvent] at hby
  have hsource := source_of_io h hth'
  rw [hpc'] at hsource
  have hqueue : (∀ timeout deadline, th.pc ≠ .get timeout deadline) → t.load = s.load := by
    intro hne
    obtain hq | ⟨⟨timeout, deadline, hget⟩, -⟩ := queue_of_io h
    · rw [load, load, hq, (io_frame h).publishing]
    · exact absurd hget (hne timeout deadline)
  obtain hpc | ⟨hpc, e, rfl, hp⟩ := hsource
  · have hload := hqueue fun _ _ hget => by cases hpc.symm.trans hget
    exact ⟨hload, .inl ⟨exit, hpc, hby⟩⟩
  · have hload := hqueue fun _ _ hget => by cases hpc.symm.trans hget
    exact ⟨hload, .inr ⟨hpc, hby, e, hp⟩⟩

/-- A step of `stop` sets the event, queues a sentinel, or does neither. -/
theorem queue_of_stop {i : Nat} (h : s.stop self i = some t) :
    t.publishing = s.publishing ∧ ∃ call, s.stopping[i]? = some call ∧
      ((call.pc.sets = true ∧ call.pc.puts = false ∧ t.queue = s.queue ∧
          t.ended = { s with stopEvent := true }.ended) ∨
        (call.pc.sets = false ∧ (call.pc.puts = true → self.full s.queue = true) ∧
          t.queue = s.queue ∧ t.ended = s.ended) ∨
        (call.pc.sets = false ∧ call.pc.puts = true ∧ self.full s.queue = false ∧
          t.queue = s.queue ++ [none] ∧ t.ended = s.ended)) := by
  obtain ⟨call, hcall, hc⟩ := stop_cases h
  cases hpc : call.pc <;> simp only [hpc] at hc
  case check =>
    obtain ⟨-, rfl⟩ | ⟨-, rfl⟩ := hc
    all_goals exact ⟨rfl, call, hcall, .inr (.inl (by rw [hpc]; exact ⟨rfl, nofun, rfl, rfl⟩))⟩
  case set =>
    obtain rfl : t = _ := hc
    exact ⟨rfl, call, hcall, .inl (by rw [hpc]; exact ⟨rfl, rfl, rfl, rfl⟩)⟩
  case putNowait | put =>
    obtain ⟨hfull, rfl⟩ | ⟨hfull, rfl⟩ := hc
    · exact ⟨rfl, call, hcall, .inr (.inl (by rw [hpc]; exact ⟨rfl, fun _ => hfull, rfl, rfl⟩))⟩
    · exact ⟨rfl, call, hcall, .inr (.inr (by rw [hpc]; exact ⟨rfl, rfl, hfull, rfl, rfl⟩))⟩
  case wait =>
    obtain rfl | rfl := hc
    all_goals exact ⟨rfl, call, hcall, .inr (.inl (by rw [hpc]; exact ⟨rfl, nofun, rfl, rfl⟩))⟩
  case join =>
    obtain rfl : t = _ := hc
    exact ⟨rfl, call, hcall, .inr (.inl (by rw [hpc]; exact ⟨rfl, nofun, rfl, rfl⟩))⟩

/-- A `publish` that returns leaves the load alone. -/
theorem load_of_publish {i : Nat} (h : s.step self (.publish i) = some t) : t.load = s.load := by
  obtain ⟨r, hr, rfl⟩ := step_cases h
  have hlt : i < s.publishing.length := (List.getElem?_eq_some_iff.mp hr).1
  have hlen := List.length_eraseIdx_of_lt hlt
  simp only [load, List.length_append, List.length_singleton, hlen]
  omega

theorem roomy_step {a : Action} (h : Roomy self s) (hc : roomy self s a = true)
    (ht : s.step self a = some t) : Roomy self t := by
  have hcases := step_cases ht
  intro hended
  cases a with
  | io raises draw =>
    obtain ⟨th, hth, hio⟩ := hcases
    obtain ⟨hload, hexit⟩ := exits_of_stopped hio (Bool.and_eq_true_iff.mp hended).2
    rw [hload]
    rcases hexit with ⟨exit, hpc, hstop⟩ | ⟨hpc, hset, e, he⟩
    · simpa [roomy, hth, hpc, hstop] using hc
    · simpa [roomy, hth, hpc, hset, he, Except.isOk, Except.toBool] using hc
  | callStart =>
    obtain ⟨-, ⟨-, rfl⟩ | ⟨-, rfl⟩⟩ := hcases
    · exact h hended
    · cases hended
  | start =>
    obtain ⟨-, rfl⟩ | ⟨-, rfl⟩ := hcases
    all_goals cases hended
  | stop i =>
    obtain ⟨hpub, call, hcall, ⟨hsets, hputs, hq, hsame⟩ | ⟨-, -, hq, hsame⟩ |
      ⟨hsets, hputs, hfull, hq, hsame⟩⟩ := queue_of_stop hcases
    all_goals rw [hsame] at hended
    · have hload : s.load ≤ self.capacity := by
        simpa [roomy, hcall, hsets, hputs, hended] using hc
      simpa [load, hq, hpub] using hload
    · simpa [load, hq, hpub] using h hended
    · have hlt : s.load < self.capacity := by
        simpa [roomy, hended, hcall, hsets, hputs, hfull] using hc
      simp only [load, hq, hpub, List.length_append, List.length_singleton] at hlt ⊢
      omega
  | callPublish body routingKey =>
    obtain rfl : t = _ := hcases
    have hended : s.ended = true := hended
    have hlt : s.load < self.capacity := by simpa [roomy, hended] using hc
    simp only [load, callPublish, List.length_append, List.length_singleton] at hlt ⊢
    omega
  | publish i =>
    rw [load_of_publish ht]
    obtain ⟨r, -, rfl⟩ := hcases
    exact h hended
  | callStop | lose => obtain rfl : t = _ := hcases; exact h hended
  | tick dt => obtain ⟨-, rfl⟩ := hcases; exact h hended

theorem roomy_of_reach (h : (machine self).Reach (fun s a => roomy self s a = true) s) :
    Roomy self s :=
  Machine.Path.invariant h nofun fun _ _ _ hc hs ht => roomy_step hs hc ht

/-! ## A stop that strands a publisher -/

/-- The bounded queue never holds more than it may. -/
def Bounded (self : Config) (s : PublishBackend) : Prop := s.queue.length ≤ self.capacity

theorem length_lt_of_not_full {α : Type} {q : List α} (hmax : 1 ≤ self.queueMaxsize)
    (h : self.full q = false) : q.length < self.capacity := by
  unfold Config.capacity
  simp only [Config.full, Bool.and_eq_false_iff, decide_eq_false_iff_not] at h
  omega

theorem full_of_length {α : Type} {q : List α} (hmax : 1 ≤ self.queueMaxsize)
    (h : self.capacity ≤ q.length) : self.full q = true := by
  unfold Config.capacity at h
  simp only [Config.full, Bool.and_eq_true, decide_eq_true_eq]
  omega

theorem bounded_step {a : Action} (hmax : 1 ≤ self.queueMaxsize) (h : Bounded self s)
    (ht : s.step self a = some t) : Bounded self t := by
  have hc := step_cases ht
  unfold Bounded at h ⊢
  cases a with
  | io raises draw =>
    obtain ⟨th, -, hio⟩ := hc
    obtain hq | ⟨-, i, hq⟩ := queue_of_io hio
    · rwa [hq]
    · rw [hq] at h
      exact Nat.le_trans (Nat.le_succ _) h
  | callStart =>
    obtain ⟨-, ⟨-, rfl⟩ | ⟨-, rfl⟩⟩ := hc
    all_goals exact h
  | start =>
    obtain ⟨-, rfl⟩ | ⟨-, rfl⟩ := hc
    all_goals exact h
  | stop i =>
    obtain ⟨-, call, -, ⟨-, -, hq, -⟩ | ⟨-, -, hq, -⟩ | ⟨-, -, hfull, hq, -⟩⟩ := queue_of_stop hc
    · rwa [hq]
    · rwa [hq]
    · have hlt := length_lt_of_not_full hmax hfull
      rw [hq, List.length_append, List.length_singleton]
      exact hlt
  | publish i =>
    have hfull : self.full s.queue = false := by
      obtain ⟨r, -, ht⟩ := Option.bind_eq_some_iff.mp ht
      by_contra hfull
      simp [hfull] at ht
    have hlt := length_lt_of_not_full hmax hfull
    obtain ⟨r, -, rfl⟩ := hc
    rw [List.length_append, List.length_singleton]
    exact hlt
  | callStop | callPublish | lose => obtain rfl : t = _ := hc; exact h
  | tick dt => obtain ⟨-, rfl⟩ := hc; exact h

theorem bounded_of_reach {c : PublishBackend → Action → Prop} (hmax : 1 ≤ self.queueMaxsize)
    (h : (machine self).Reach c s) : Bounded self s :=
  Machine.Path.invariant h (Nat.zero_le _) fun _ _ _ _ hs ht => bounded_step hmax hs ht

/-- The publishers that are there go on. -/
def onlyPublish (_ : PublishBackend) (a : Action) : Prop := ∃ i, a = .publish i

/-- With more to queue than there is room for, the publishers fill the queue and one
of them waits. -/
theorem exists_stranded (hmax : 1 ≤ self.queueMaxsize) (n : Nat) :
    ∀ s : PublishBackend, Bounded self s → s.ended = true → self.capacity < s.load →
      self.capacity - s.queue.length = n →
      ∃ u, (machine self).Path onlyPublish s u ∧ Stranded self u := by
  induction n with
  | zero =>
    intro s hb hended hload hn
    unfold load at hload
    refine ⟨s, Machine.Path.refl s, hended, ?_, full_of_length hmax (by omega)⟩
    intro hnil
    rw [hnil, List.length_nil] at hload
    unfold Bounded at hb
    omega
  | succ n ih =>
    intro s hb hended hload hn
    have hnot : self.full s.queue = false := by
      by_contra hfull
      simp only [Config.full, Bool.and_eq_false_iff, not_or, decide_eq_false_iff_not,
        not_not] at hfull
      unfold Config.capacity at hn
      omega
    cases hp : s.publishing with
    | nil =>
      unfold load at hload
      rw [hp, List.length_nil] at hload
      omega
    | cons r rest =>
      obtain ⟨t, ht⟩ : ∃ t, s.step self (.publish 0) = some t := by
        simp [step, publish, hp, hnot]
      have hloadt := load_of_publish ht
      have hbt := bounded_step hmax hb ht
      obtain ⟨r', -, rfl⟩ := step_cases ht
      obtain ⟨u, hu, hstranded⟩ := ih _ hbt hended (hloadt ▸ hload) (by
        simp only [List.length_append, List.length_singleton]
        omega)
      exact ⟨u, Machine.Path.trans ((Machine.Path.refl s).snoc ⟨0, rfl⟩ ht) hu, hstranded⟩

/-- A step of the I/O thread that is not `roomy` ends the thread, after the stop event
was set and with more to queue than there is room for. -/
theorem load_of_not_roomy_io {th : Thread} {raises : Bool} {draw : ℚ}
    (hc : roomy self s (.io raises draw) = false) (hth : s.thread = some th)
    (hio : s.io self th raises draw = some t) (hw : Wellformed self s) :
    t.ended = true ∧ self.capacity < t.load := by
  have hstart : s.starting = none := by
    by_contra hne
    have hdead := hw.starting (Option.isSome_iff_ne_none.mpr hne)
    rw [alive, hth, Option.any_some] at hdead
    rw [(io_pooled (hw.pooled th hth) hio).1] at hdead
    cases hdead
  have hexits : t.thread.any (·.pc.stopped s.stopEvent) = true ∧ self.capacity < s.load := by
    have hcases := io_cases hio
    simp only [roomy, hth, Option.map_some] at hc
    split at hc
    · next exit hpc =>
      simp only [Option.some.inj hpc] at hcases
      obtain ⟨hstop, hload⟩ : exit.byStop s.stopEvent = true ∧ self.capacity < s.load := by
        simpa using hc
      rw [hcases]
      exact ⟨hstop, hload⟩
    · next hpc =>
      simp only [Option.some.inj hpc] at hcases
      obtain ⟨⟨hset, hload⟩, hpause⟩ : (s.stopEvent = true ∧ self.capacity < s.load) ∧
          (self.reconnectRetryPolicy.pause (s.reconnectFailures + 2) draw).isOk = false := by
        simpa using hc
      rw [hcases.2]
      cases hp : self.reconnectRetryPolicy.pause (s.reconnectFailures + 2) draw with
      | error e => exact ⟨hset, hload⟩
      | ok delay => rw [hp] at hpause; cases hpause
    · cases hc
  have hended : t.ended = true := by
    rw [ended, (io_frame hio).starting, hstart, (io_frame hio).stopEvent, hexits.1]
    rfl
  have hload := (exits_of_stopped hio (by rw [(io_frame hio).stopEvent]; exact hexits.1)).1
  exact ⟨hended, hload ▸ hexits.2⟩

/-- A step that is not `roomy` leaves more to queue than there is room for. -/
theorem load_of_not_roomy {a : Action} (hc : roomy self s a = false)
    (ht : s.step self a = some t) (hw : Wellformed self s) :
    t.ended = true ∧ self.capacity < t.load := by
  have hcases := step_cases ht
  cases a with
  | io raises draw =>
    obtain ⟨th, hth, hio⟩ := hcases
    exact load_of_not_roomy_io hc hth hio hw
  | callPublish body routingKey =>
    obtain rfl : t = _ := hcases
    obtain ⟨hended, hload⟩ : s.ended = true ∧ self.capacity ≤ s.load := by
      simpa [roomy] using hc
    refine ⟨hended, ?_⟩
    simp only [load, callPublish, List.length_append, List.length_singleton] at hload ⊢
    omega
  | stop i =>
    obtain ⟨hpub, call, hcall, ⟨hsets, hputs, hq, hsame⟩ | ⟨hsets, hfull, hq, hsame⟩ |
      ⟨hsets, hputs, hfull, hq, hsame⟩⟩ := queue_of_stop hcases
    · obtain ⟨hended, hload⟩ : { s with stopEvent := true }.ended = true ∧
          self.capacity < s.load := by
        simpa [roomy, hcall, hsets, hputs] using hc
      refine ⟨hsame.trans hended, ?_⟩
      simpa [load, hq, hpub] using hload
    · obtain ⟨⟨⟨hputs, -⟩, hnot⟩, -⟩ : ((call.pc.puts = true ∧ s.ended = true) ∧
          self.full s.queue = false) ∧ self.capacity ≤ s.load := by
        simpa [roomy, hcall, hsets] using hc
      rw [hfull hputs] at hnot
      cases hnot
    · obtain ⟨hended, hload⟩ : s.ended = true ∧ self.capacity ≤ s.load := by
        simpa [roomy, hcall, hsets, hputs, hfull] using hc
      refine ⟨hsame.trans hended, ?_⟩
      simp only [load, hq, hpub, List.length_append, List.length_singleton] at hload ⊢
      omega
  | callStart | start | callStop | publish | tick | lose => cases hc

/-- **`roomy` is what it takes**: after a step that is not, the publishers that are
there strand one of them. -/
theorem roomy_iff {a : Action} (hmax : 1 ≤ self.queueMaxsize)
    (hs : (machine self).Reach (fun s a => roomy self s a = true) s)
    (ht : s.step self a = some t) :
    roomy self s a = true ↔
      ∀ u, (machine self).Path onlyPublish t u → ¬ Stranded self u := by
  constructor
  · intro hc u hu
    have htu : (machine self).Path (fun s a => roomy self s a = true) t u :=
      hu.mono fun _ _ ⟨_, ha⟩ => ha ▸ rfl
    exact (roomy_of_reach (Machine.Path.trans (hs.snoc hc ht) htu)).not_stranded
  · intro hall
    by_contra hc
    have hreach := hs.mono (d := Machine.anyStep) fun _ _ _ => trivial
    obtain ⟨hended, hload⟩ :=
      load_of_not_roomy (by simpa using hc) ht (accounted_of_reach hreach).1
    have hb := bounded_step hmax (bounded_of_reach hmax hreach) ht
    obtain ⟨u, hu, hstranded⟩ := exists_stranded hmax _ t hb hended hload rfl
    exact hall u hu hstranded

/-- **No publisher is stranded by a stop** in a run whose steps are all `roomy`, and
with a bounded queue the first step that is not lets the publishers strand one of
them. -/
theorem never_stranded (h : (machine self).Reach (fun s a => roomy self s a = true) s) :
    ¬ Stranded self s ∧ (1 ≤ self.queueMaxsize → ∀ a t, s.step self a = some t →
      (roomy self s a = true ↔
        ∀ u, (machine self).Path onlyPublish t u → ¬ Stranded self u)) :=
  ⟨(roomy_of_reach h).not_stranded, fun hmax _ _ ht => roomy_iff hmax h ht⟩

/-- A backend with room for one item. -/
def tightConfig : Config := { quietConfig with queueMaxsize := 1 }

/-- Two requests are published in turn, and the thread takes the first; `stop` finds no
room for its sentinel, and the thread returns with the second still queued. -/
def roomyRun : List Action :=
  [.callStart, .start, .start, .callPublish [1] none, .publish 0] ++
    List.replicate 6 (.io false 0) ++
    [.callPublish [2] none, .publish 0, .callStop true, .stop 0, .stop 0, .stop 0,
      .io false 0, .io false 0, .io false 0, .io false 0]

def leftRoom : PublishBackend :=
  ((machine tightConfig).runIn (roomy tightConfig) initial roomyRun).getD initial

theorem never_stranded_leftRoom : leftRoom.ended = true ∧ ¬ Stranded tightConfig leftRoom :=
  ⟨rfl, (never_stranded (Machine.path_of_runIn (show (machine tightConfig).runIn
    (roomy tightConfig) initial roomyRun = some leftRoom from rfl))).1⟩

/-- Nothing frees a stranded publisher but a new start. -/
theorem stranded_step {a : Action} (h : Stranded self s) (ha : a ≠ .callStart)
    (ht : s.step self a = some t) : Stranded self t := by
  obtain ⟨hended, hwaits, hfull⟩ := h
  have hcases := step_cases ht
  obtain ⟨hstart, hstopped⟩ := Bool.and_eq_true_iff.mp hended
  cases a with
  | io raises draw =>
    obtain ⟨th, hth, hio⟩ := hcases
    rw [hth, Option.any_some] at hstopped
    cases hpc : th.pc <;> simp [hpc, Pc.stopped] at hstopped
    have hc := io_cases hio
    simp [hpc] at hc
  | callStart => exact absurd rfl ha
  | start =>
    obtain ⟨hs, -⟩ | ⟨hs, -⟩ := hcases
    all_goals simp [hs] at hstart
  | stop i =>
    obtain ⟨hpub, call, -, ⟨-, -, hq, hsame⟩ | ⟨-, -, hq, hsame⟩ | ⟨-, -, hfull', -⟩⟩ :=
      queue_of_stop hcases
    · refine ⟨hsame.trans ?_, by rwa [hpub], by rwa [hq]⟩
      obtain ⟨th, hth, hstopped⟩ := (Option.any_eq_true _ _).mp hstopped
      exact Bool.and_eq_true_iff.mpr
        ⟨hstart, (Option.any_eq_true _ _).mpr ⟨th, hth, Pc.stopped.of_set hstopped⟩⟩
    · exact ⟨hsame.trans hended, by rwa [hpub], by rwa [hq]⟩
    · rw [hfull] at hfull'
      cases hfull'
  | callPublish body routingKey =>
    obtain rfl : t = _ := hcases
    exact ⟨hended, List.append_ne_nil_of_left_ne_nil hwaits _, hfull⟩
  | publish i =>
    obtain ⟨r, -, ht⟩ := Option.bind_eq_some_iff.mp ht
    simp [hfull] at ht
  | callStop | lose => obtain rfl : t = _ := hcases; exact ⟨hended, hwaits, hfull⟩
  | tick dt => obtain ⟨-, rfl⟩ := hcases; exact ⟨hended, hwaits, hfull⟩

/-- One request is queued, another waits for room; `stop` is called, and the thread
finds the event and returns. -/
def strandingRun : List Action :=
  [.callStart, .start, .start, .callPublish [1] none, .publish 0, .callPublish [2] none,
    .callStop true, .stop 0, .stop 0, .io false 0, .io false 0]

def stranded : PublishBackend :=
  ((machine tightConfig).runIn (fun _ _ => true) initial strandingRun).getD initial

/-- A publisher waits from then on, as long as nobody calls `start`. -/
theorem publisher_stranded : ∃ s, (machine tightConfig).Reach Machine.anyStep s ∧
    ∀ t, (machine tightConfig).Path (fun _ a => a ≠ .callStart) s t → Stranded tightConfig t := by
  have hreach : (machine tightConfig).Reach Machine.anyStep stranded :=
    (Machine.path_of_runIn (c := fun _ _ => true) (show (machine tightConfig).runIn
      (fun _ _ => true) initial strandingRun = some stranded from rfl)).mono fun _ _ _ => trivial
  refine ⟨stranded, hreach, fun t ht => ?_⟩
  exact Machine.Path.invariant (P := Stranded tightConfig) ht ⟨rfl, nofun, rfl⟩
    fun _ _ _ ha hs h => stranded_step hs ha h

end PublishBackend

end MqAdapters
