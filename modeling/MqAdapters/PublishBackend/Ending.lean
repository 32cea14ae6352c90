import MqAdapters.PublishBackend.Waiting
import MqAdapters.Theory.Ranking

/-!
# The I/O thread ends after a stop

Once the stop event is set, and as long as `start` does not clear it, each step of `_run`
brings the thread closer to its end.

* `Thread.toEnd`: how many steps that takes at most.  Only the channels of a pool make
  it depend on the configuration.
* `leads_to_end`: the steps of the thread are paid for with it, whatever else happens.
* `passes_step`: one request at most is still passed to `basic_publish`.
* `exists_turn`: the thread can always take its next step, if need be after a sleep or
  after the sentinel of the `stop` that is under way.
-/

namespace MqAdapters

open Python Theory

namespace PublishBackend

variable {self : Config} {s t : PublishBackend} {th : Thread} {raises : Bool} {draw : ℚ}

/-- How many steps the thread takes at most, once the stop event is set. -/
def Thread.toEnd (self : Config) (th : Thread) : Nat :=
  match th.pc with
  | .dead _ => 0
  | .cleanup _ => 1
  | .top => 2
  | .sleep _ => 3
  | .handler => 4
  | .serve _ => 5
  | .pump _ => 6
  | .get _ _ => 7
  | .connected => 8
  | .openChannels => 9 + 2 * (self.poolSize - th.channels.length)
  | .confirm _ => 10 + 2 * (self.poolSize - (th.channels.length + 1))
  | .connect => 10 + 2 * self.poolSize

theorem Thread.toEnd_le (self : Config) (th : Thread) : th.toEnd self ≤ 2 * self.poolSize + 10 := by
  cases hpc : th.pc <;> simp only [toEnd, hpc] <;> omega

/-- The steps that are left to the thread. -/
def toEnd (self : Config) (s : PublishBackend) : Nat := s.thread.elim 0 (Thread.toEnd self)

/-- **A step of `_run` comes closer to its end**, wherever it is. -/
theorem io_toEnd (hset : s.stopEvent = true) (h : s.io self th raises draw = some t) :
    ∃ th', t.thread = some th' ∧ th'.toEnd self < th.toEnd self := by
  have hc := io_cases h
  cases hpc : th.pc <;> simp only [hpc] at hc
  case top =>
    rw [hset, if_pos rfl] at hc
    obtain rfl : t = _ := hc
    exact ⟨_, rfl, by simp [Thread.toEnd, hpc]⟩
  case connect =>
    obtain ⟨-, rfl⟩ | ⟨-, -, rfl⟩ | ⟨-, -, rfl⟩ := hc
    all_goals
      refine ⟨_, rfl, ?_⟩
      simp only [Thread.toEnd, hpc]
      omega
  case openChannels =>
    obtain ⟨hlen, rfl⟩ | ⟨hlen, -, rfl⟩ | ⟨hlen, -, -, rfl⟩ | ⟨hlen, -, -, rfl⟩ := hc
    all_goals
      refine ⟨_, rfl, ?_⟩
      simp only [Thread.toEnd, hpc, List.length_append, List.length_singleton]
      omega
  case confirm =>
    obtain rfl : t = _ := hc
    refine ⟨_, rfl, ?_⟩
    simp only [Thread.toEnd, hpc, List.length_append, List.length_singleton]
    omega
  case connected =>
    obtain ⟨timeout, -, rfl⟩ := hc
    exact ⟨_, rfl, by simp [Thread.toEnd, hpc]⟩
  case get =>
    obtain ⟨r, q, -, rfl⟩ | ⟨q, -, rfl⟩ | ⟨-, -, rfl⟩ := hc
    all_goals exact ⟨_, rfl, by simp [Thread.toEnd, hpc]⟩
  case pump =>
    obtain ⟨-, rfl⟩ | ⟨-, -, rfl⟩ := hc
    all_goals exact ⟨_, rfl, by simp [Thread.toEnd, hpc]⟩
  case serve item =>
    rcases item with _ | _ | r
    · obtain rfl : t = _ := hc
      exact ⟨_, rfl, by simp [Thread.toEnd, hpc]⟩
    · obtain rfl : t = _ := hc
      exact ⟨_, rfl, by simp [Thread.toEnd, hpc]⟩
    · obtain ⟨-, rfl⟩ | ⟨ch, -, rfl⟩ := hc
      · exact ⟨_, rfl, by simp [Thread.toEnd, hpc]⟩
      · cases raises <;> exact ⟨_, rfl, by simp [Thread.toEnd, hpc]⟩
  case handler =>
    obtain ⟨-, rfl⟩ := hc
    cases self.reconnectRetryPolicy.pause (s.reconnectFailures + 2) draw <;>
      exact ⟨_, rfl, by simp [Thread.toEnd, hpc]⟩
  case sleep =>
    obtain ⟨-, rfl⟩ := hc
    exact ⟨_, rfl, by simp [Thread.toEnd, hpc]⟩
  case cleanup =>
    obtain rfl : t = _ := hc
    exact ⟨_, rfl, by simp [Thread.toEnd, hpc]⟩

/-- No call of `start` goes on. -/
def unstarted (_ : PublishBackend) : Action → Prop
  | .start => False
  | _ => True

/-- A step of the I/O thread. -/
def ofThread (_ : PublishBackend) : Action → Bool
  | .io _ _ => true
  | _ => false

/-- Only `start` clears the stop event. -/
theorem stopEvent_step {a : Action} (ha : unstarted s a) (hset : s.stopEvent = true)
    (ht : s.step self a = some t) : t.stopEvent = true := by
  have hc := step_cases ht
  cases a with
  | io raises draw =>
    obtain ⟨th, -, hio⟩ := hc
    exact (io_frame hio).stopEvent.trans hset
  | callStart => obtain ⟨-, ⟨-, rfl⟩ | ⟨-, rfl⟩⟩ := hc <;> exact hset
  | start => cases ha
  | stop i =>
    obtain ⟨call, -, hc⟩ := stop_cases hc
    cases hpc : call.pc <;> simp only [hpc] at hc
    case set => obtain rfl : t = _ := hc; rfl
    case join => obtain rfl : t = _ := hc; exact hset
    case wait => obtain rfl | rfl := hc <;> exact hset
    all_goals obtain ⟨-, rfl⟩ | ⟨-, rfl⟩ := hc <;> exact hset
  | callStop | callPublish | lose => obtain rfl : t = _ := hc; exact hset
  | publish i => obtain ⟨r, -, rfl⟩ := hc; exact hset
  | tick dt => obtain ⟨-, rfl⟩ := hc; exact hset

/-- The thread is the old one, after a step of its own or without one. -/
theorem toEnd_step {a : Action} (ha : unstarted s a) (hset : s.stopEvent = true)
    (ht : s.step self a = some t) :
    t.toEnd self + (if ofThread s a then 1 else 0) ≤ s.toEnd self := by
  obtain ⟨raises, draw, th, rfl, hth, hio⟩ | ⟨rfl, -, -⟩ | ⟨hother, haside⟩ := thread_cases ht
  · obtain ⟨th', hth', hlt⟩ := io_toEnd hset hio
    simp only [toEnd, hth, hth', Option.elim_some, ofThread, if_true]
    omega
  · cases ha
  · have hnot : ofThread s a = false := by
      cases a with
      | io raises draw => exact absurd rfl (hother raises draw)
      | _ => rfl
    simp [toEnd, haside.thread, hnot]

theorem leads_to_end (self : Config) : (machine self).Leads unstarted ofThread
    (fun s => s.stopEvent = true) (fun _ => False) (toEnd self) where
  step _ _ _ ha hset ht := .inr ⟨stopEvent_step ha hset ht, toEnd_step ha hset ht⟩
  stays _ _ _ _ := False.elim

/-! ## What is still published -/

/-- The thread may pass another request to `basic_publish` before it looks at the event. -/
def Pc.mayPass : Pc → Bool
  | .connect | .openChannels | .confirm _ | .connected | .get _ _ | .pump _ | .serve _ => true
  | _ => false

/-- The requests passed so far, and the one that may still be. -/
def passes (s : PublishBackend) : Nat :=
  s.passed.length + (s.thread.any fun th => th.pc.mayPass).toNat

theorem passes_io (hset : s.stopEvent = true) (hth : s.thread = some th)
    (h : s.io self th raises draw = some t) : t.passes ≤ s.passes := by
  have hc := io_cases h
  cases hpc : th.pc <;> simp only [hpc] at hc
  case top =>
    rw [hset, if_pos rfl] at hc
    obtain rfl : t = _ := hc
    simp [passes, hth, hpc, goto, Pc.mayPass]
  case connect =>
    obtain ⟨-, rfl⟩ | ⟨-, -, rfl⟩ | ⟨-, -, rfl⟩ := hc
    all_goals simp [passes, hth, hpc, goto, Pc.mayPass]
  case openChannels =>
    obtain ⟨-, rfl⟩ | ⟨-, -, rfl⟩ | ⟨-, -, -, rfl⟩ | ⟨-, -, -, rfl⟩ := hc
    all_goals simp [passes, hth, hpc, goto, Pc.mayPass]
  case confirm =>
    obtain rfl : t = _ := hc
    simp [passes, hth, hpc, goto, Pc.mayPass]
  case connected =>
    obtain ⟨timeout, -, rfl⟩ := hc
    simp [passes, hth, hpc, goto, Pc.mayPass]
  case get =>
    obtain ⟨r, q, -, rfl⟩ | ⟨q, -, rfl⟩ | ⟨-, -, rfl⟩ := hc
    all_goals simp [passes, hth, hpc, goto, Pc.mayPass]
  case pump =>
    obtain ⟨-, rfl⟩ | ⟨-, -, rfl⟩ := hc
    all_goals simp [passes, hth, hpc, goto, Pc.mayPass]
  case serve item =>
    rcases item with _ | _ | r
    · obtain rfl : t = _ := hc
      simp [passes, hth, hpc, goto, Pc.mayPass]
    · obtain rfl : t = _ := hc
      simp [passes, hth, hpc, goto, Pc.mayPass]
    · -- the request that was still in hand is passed
      obtain ⟨-, rfl⟩ | ⟨ch, -, rfl⟩ := hc
      · simp [passes, hth, hpc, goto, Pc.mayPass]
      · cases raises <;> simp [passes, hth, hpc, goto, Pc.mayPass]
  case handler =>
    obtain ⟨-, rfl⟩ := hc
    cases self.reconnectRetryPolicy.pause (s.reconnectFailures + 2) draw <;>
      simp [passes, hth, hpc, goto, Pc.mayPass]
  case sleep =>
    obtain ⟨-, rfl⟩ := hc
    obtain ⟨cs, stats, hclose⟩ := exists_closeConnection s th.conn raises
    simp [passes, hth, hpc, goto, Pc.mayPass, hclose]
  case cleanup =>
    obtain rfl : t = _ := hc
    obtain ⟨cs, stats, hclose⟩ := exists_closeConnection s th.conn raises
    simp [passes, hth, hpc, goto, Pc.mayPass, hclose]

theorem passes_step {a : Action} (ha : unstarted s a) (hset : s.stopEvent = true)
    (ht : s.step self a = some t) : t.passes ≤ s.passes := by
  obtain ⟨raises, draw, th, rfl, hth, hio⟩ | ⟨rfl, -, -⟩ | ⟨-, haside⟩ := thread_cases ht
  · exact passes_io hset hth hio
  · cases ha
  · simp [passes, haside.thread, haside.passed]

/-! ## The thread never hangs -/

/-- What is kept after a stop, until `start` clears the event. -/
structure Ending (config : Config) (s : PublishBackend) : Prop where
  wellformed : Wellformed config s
  wakes : Wakes s
  stopEvent : s.stopEvent = true

theorem Ending.step {a : Action} (hs : Ending self s) (ha : unstarted s a)
    (ht : s.step self a = some t) : Ending self t :=
  ⟨wellformed_step self s a t hs.wellformed ht, wakes_step hs.wellformed hs.wakes ht,
    stopEvent_step ha hs.stopEvent ht⟩

/-- A run on the way to the end, with the number of steps of the thread. -/
abbrev Runs (self : Config) (s t : PublishBackend) (n : Nat) : Prop :=
  ((machine self).counting ofThread).Path (fun q a => unstarted q.1 a) (s, 0) (t, n)

theorem Runs.turn {u : PublishBackend} (hrun : Runs self s u 0) (hth : u.thread = some th)
    (hio : ∃ t, u.io self th false 0 = some t) : ∃ t, Runs self s t 1 := by
  obtain ⟨t, ht⟩ := hio
  refine ⟨t, hrun.count (.io false 0) trivial rfl ?_⟩
  simp only [machine, step, hth, Option.bind_some, ht]

/-- The clock goes on to the end of a wait. -/
theorem exists_later (self : Config) (s : PublishBackend) (d : ℚ) : ∃ dt,
    d ≤ s.clock + dt ∧ Runs self s { s with clock := s.clock + dt } 0 := by
  refine ⟨max 0 (d - s.clock), ?_, ?_⟩
  · have hlong := le_max_right 0 (d - s.clock)
    linarith
  · exact Machine.Path.pass (c := unstarted) (Machine.Path.refl (s, 0))
      (Action.tick (max 0 (d - s.clock))) trivial rfl (by simp [machine, step])

/-- The `stop` that is about to puts its sentinel into the empty queue. -/
theorem exists_sentinel (self : Config) (hqueue : s.queue = []) {call : StopCall}
    (hcall : call ∈ s.stopping) (hputs : call.pc.puts = true) :
    ∃ u, Runs self s u 0 ∧ u.queue = [none] ∧ u.thread = s.thread := by
  obtain ⟨i, hi⟩ := List.mem_iff_getElem?.mp hcall
  have hroom : self.full s.queue = false := by
    by_contra hfull
    exact not_nil_of_full (by simpa using hfull) hqueue
  let u := { s with queue := s.queue ++ [none] }.stopAt i call .wait
  have hstep : s.step self (.stop i) = some u := by
    simp only [step, stop, hi, Option.bind_some]
    cases hpc : call.pc <;> rw [hpc] at hputs
    case putNowait | put => simp [hroom, u]
    all_goals cases hputs
  exact ⟨u, Machine.Path.pass (c := unstarted) (Machine.Path.refl (s, 0)) (Action.stop i) trivial
    rfl hstep, by simp [u, stopAt, hqueue], rfl⟩

/-- The thread waits for nothing: it can go on at once. -/
theorem exists_io (u : PublishBackend) (halive : th.alive = true)
    (hget : ∀ timeout deadline, th.pc = .get timeout deadline →
      u.queue ≠ [] ∨ deadline.any (fun d => d ≤ u.clock) = true)
    (hsleep : ∀ d, th.pc = .sleep d → d ≤ u.clock) :
    ∃ t, u.io self th false 0 = some t := by
  cases hpc : th.pc with
  | dead exit => simp [Thread.alive, hpc] at halive
  | sleep d =>
    simp only [io, hpc, wake, if_pos (hsleep d hpc)]
    exact ⟨_, rfl⟩
  | handler =>
    simp only [io, hpc, RetryPolicy.draws_zero, if_true]
    exact ⟨_, rfl⟩
  | get timeout deadline =>
    simp only [io, hpc, get]
    cases hqueue : u.queue with
    | cons item queue => cases item <;> exact ⟨_, rfl⟩
    | nil =>
      rcases hget timeout deadline hpc with hne | hdue
      · exact absurd hqueue hne
      · rw [if_pos hdue]
        exact ⟨_, rfl⟩
  | _ =>
    simp only [io, hpc]
    exact ⟨_, rfl⟩

/-- **The thread can take its next step**, if need be after a sleep or a sentinel. -/
theorem exists_turn (hs : Ending self s) (halive : s.alive = true) : ∃ t, Runs self s t 1 := by
  obtain ⟨th, hth, hth'⟩ := (Option.any_eq_true _ _).mp halive
  have hrefl : Runs self s s 0 := Machine.Path.refl (s, 0)
  cases hpc : th.pc with
  | sleep d =>
    obtain ⟨dt, hle, hrun⟩ := exists_later self s d
    refine hrun.turn hth (exists_io _ hth' ?_ ?_)
    · simp [hpc]
    · simpa [hpc] using hle
  | get timeout deadline =>
    by_cases hqueue : s.queue = []
    · cases deadline with
      | some d =>
        obtain ⟨dt, hle, hrun⟩ := exists_later self s d
        refine hrun.turn hth (exists_io _ hth' ?_ ?_)
        · simp [hpc, hle]
        · simp [hpc]
      | none =>
        -- nobody will put a request, but the one who set the event puts the sentinel
        rcases hs.wakes hs.stopEvent with ⟨call, hcall, hputs⟩ | hfull
        · obtain ⟨u, hrun, hsentinel, hsame⟩ := exists_sentinel self hqueue hcall hputs
          refine hrun.turn (hsame.trans hth) (exists_io u hth' ?_ ?_)
          · simp [hsentinel]
          · simp [hpc]
        · exact absurd hqueue (hfull (by simp [phase, hth, hpc]))
    · refine hrefl.turn hth (exists_io s hth' ?_ ?_)
      · simp [hqueue]
      · simp [hpc]
  | _ =>
    refine hrefl.turn hth (exists_io s hth' ?_ ?_)
    all_goals simp [hpc]

/-- **The thread ends**, on some run without another `start`. -/
theorem exists_end (hs : Ending self s) :
    ∃ t, (machine self).Path unstarted s t ∧ t.alive = false := by
  have hleads : (machine self).Leads unstarted ofThread (Ending self) (fun t => t.alive = false)
      (toEnd self) := by
    refine ⟨fun u a v ha hu hv => .inr ⟨hu.step ha hv, toEnd_step ha hu.stopEvent hv⟩, ?_⟩
    intro u a v ha hdead hv
    obtain ⟨raises, draw, th, -, hth, hio⟩ | ⟨rfl, -, -⟩ | ⟨-, haside⟩ := thread_cases hv
    · simp only [alive, hth, Option.any_some] at hdead
      cases hpc : th.pc <;> simp only [Thread.alive, hpc] at hdead
      all_goals simp [io, hpc] at hio hdead
    · cases ha
    · rwa [alive, haside.thread]
  refine hleads.exists_goal (fun u hu hgoal => ?_) hs
  obtain ⟨v, hv⟩ := exists_turn hu (by simpa using hgoal)
  exact ⟨v, 0, hv⟩

/-- **A stopped thread ends.**  From when the stop event is set until `start` clears it, the
thread takes `2 * poolSize + 10` steps at most, however many requests are queued and
whatever fails, and passes one request at most to `basic_publish`.  And it waits for nobody
for good: from every state there is a run in which it ends. -/
theorem thread_ends {c : PublishBackend → Action → Prop} (h : (machine self).Reach c s)
    (hset : s.stopEvent = true) :
    (machine self).AtMost unstarted ofThread (2 * self.poolSize + 10) s ∧
      (∀ t, (machine self).Path unstarted s t → t.passed.length ≤ s.passed.length + 1) ∧
      ∃ t, (machine self).Path unstarted s t ∧ t.alive = false := by
  have hs : Ending self s := ⟨(accounted_of_reach h).1, wakes_of_reach h, hset⟩
  refine ⟨fun t k hk => ?_, fun t ht => ?_, ?_⟩
  · rcases (leads_to_end self).reaches hset hk with hfalse | ⟨-, hle⟩
    · exact hfalse.elim
    · have hbound : s.toEnd self ≤ 2 * self.poolSize + 10 := by
        cases hth : s.thread with
        | none => simp [toEnd, hth]
        | some th => simpa [toEnd, hth] using th.toEnd_le self
      omega
  · have hpasses : t.stopEvent = true ∧ t.passes ≤ s.passes := by
      refine Machine.Path.invariant (P := fun t => t.stopEvent = true ∧ t.passes ≤ s.passes) ht
        ⟨hset, Nat.le_refl _⟩ ?_
      rintro t a u ha ⟨hset, hle⟩ hu
      exact ⟨stopEvent_step ha hset hu, (passes_step ha hset hu).trans hle⟩
    have hone := Bool.toNat_le (s.thread.any fun th => th.pc.mayPass)
    have hle := hpasses.2
    simp only [passes] at hle
    omega
  · exact exists_end hs

/-- The thread waits for a request without a heartbeat, `stop` has set the event, and its
sentinel is not yet in the queue. -/
def unwoken : PublishBackend :=
  ((machine quietConfig).runIn (fun _ _ => true) initial
    ([.callStart, .start, .start] ++ List.replicate 5 (.io false 0) ++
      [.callStop true, .stop 0, .stop 0])).getD initial

theorem thread_ends_unwoken :
    (machine quietConfig).AtMost unstarted ofThread 12 unwoken ∧
      (∀ t, (machine quietConfig).Path unstarted unwoken t → t.passed.length ≤ 1) ∧
      ∃ t, (machine quietConfig).Path unstarted unwoken t ∧ t.alive = false := by
  have hreach : (machine quietConfig).Reach (fun _ _ => true = true) unwoken :=
    Machine.path_of_runIn (c := fun _ _ => true) (show (machine quietConfig).runIn
      (fun _ _ => true) initial ([.callStart, .start, .start] ++ List.replicate 5 (.io false 0) ++
        [.callStop true, .stop 0, .stop 0]) = some unwoken from rfl)
  exact thread_ends hreach rfl

end PublishBackend

end MqAdapters
