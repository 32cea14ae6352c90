import MqAdapters.Listener.Ending
import MqAdapters.Offload.Ownership

/-!
# The listener comes to rest after a stop

`Listener.Ending` looks at `run` and `stop_listening` alone.  Here the I/O thread can be
in a wrapper, where it may wait for a permit, and the thread that leaves the `with`
block waits for the workers, so they could wait for each other.

* `leads_to_end`: once `stop_me` is set, `run` takes seven more steps at most,
  through all that the wrappers and the workers do.
* `task_finishes`: with the workers at rest the wrapper ends: it gets its permit, and
  a `submit` that raises leaves it to handle the delivery itself.
* `stop_completes`: so from every state there is a way to the end.
-/

namespace MqAdapters

open Python Theory

namespace Offload

variable {self : Config} {s t : Offload} {i : Nat} {w : Task} {answers : ∀ o : Op, o.Ans}

/-! ## The steps of `run` -/

/-- A step of `run`, outside the functions that it calls. -/
def ofRun (_ : Offload) : Action → Bool
  | .loop (.io _ _ _) => true
  | _ => false

/-- The I/O thread leaves a function, and an exception goes to the handler of `run`. -/
theorem goOn_toEnd (task : Task) (hstop : s.loop.stopMe = true) (hpc : s.loop.pc = .pump) :
    (s.goOn task).loop.stopMe = true ∧ (s.goOn task).loop.pc.toEnd ≤ s.loop.pc.toEnd := by
  unfold goOn
  split
  · exact ⟨hstop, Nat.le_refl _⟩
  · refine ⟨by simp [hstop], ?_⟩
    rw [hpc]
    exact Nat.le_trans ListenerLoop.pump_toEnd (by simp [ListenerLoop.Pc.toEnd])
  all_goals exact ⟨hstop, Nat.le_refl _⟩

/-- A call leaves the loop where it is. -/
theorem Called.toEnd (h : Called s t) (hstop : s.loop.stopMe = true) :
    t.loop.stopMe = true ∧ t.loop.pc = s.loop.pc := by
  obtain ⟨stats, hloop⟩ := h.loop
  rw [hloop]
  exact ⟨hstop, rfl⟩

/-- **No other step of the listener takes the loop further from its end.** -/
theorem toEnd_step {a : Action} (hs : Housed s) (hstop : s.loop.stopMe = true)
    (ht : s.step self a = some t) : t.loop.stopMe = true ∧
      t.loop.pc.toEnd + (if ofRun s a then 1 else 0) ≤ s.loop.pc.toEnd := by
  have hc := step_cases ht
  cases a with
  | loop a =>
    obtain ⟨loop, shut, hloop, rfl, -⟩ := hc
    cases a with
    | io raises runs draw => exact ListenerLoop.io_toEnd hstop hloop
    | callStop | stop | tick | lose | loseChannel =>
      have hleaves := ListenerLoop.leaves_of_ofRun self.loop hloop rfl
      exact ⟨hleaves.stopMe hstop, Nat.le_of_eq (congrArg ListenerLoop.Pc.toEnd hleaves.pc)⟩
  | deliver d =>
    obtain ⟨-, -, rfl⟩ := hc
    exact ⟨hstop, Nat.le_refl _⟩
  | runScheduled j =>
    obtain ⟨f, -, -, rfl⟩ := hc
    exact ⟨hstop, Nat.le_refl _⟩
  | runRequest raises =>
    obtain ⟨-, rfl⟩ := hc
    have hpc := ListenerLoop.runQueued_pc (s := s.loop) raises
    exact ⟨by simp [hstop], Nat.le_of_eq (congrArg ListenerLoop.Pc.toEnd hpc)⟩
  | runTask answers =>
    obtain ⟨task, o, k, p, htask, -, hcall, rfl⟩ := runTask_cases hc
    obtain ⟨hstop', hpc⟩ := (call_changes hcall).1.toEnd hstop
    have hpump : s.loop.pc = .pump := hs.inside (by rw [htask]; rfl)
    obtain ⟨hgoes, hle⟩ := goOn_toEnd (task.answer o k p.2) hstop' (hpc.trans hpump)
    exact ⟨hgoes, hpc ▸ hle⟩
  | work i answers =>
    obtain ⟨w, o, k, -, -, rfl | ⟨p, hcall, rfl⟩⟩ := work_cases hc
    · exact ⟨hstop, Nat.le_refl _⟩
    · obtain ⟨hstop', hpc⟩ := (call_changes hcall).1.toEnd hstop
      exact ⟨hstop', Nat.le_of_eq (congrArg ListenerLoop.Pc.toEnd hpc)⟩
  | leave =>
    obtain ⟨loop, exit, rfl | hstep, rfl⟩ := hc
    · exact ⟨hstop, Nat.le_refl _⟩
    · have hleaves := ListenerLoop.leaves_of_ofRun self.loop hstep rfl
      exact ⟨hleaves.stopMe hstop, Nat.le_of_eq (congrArg ListenerLoop.Pc.toEnd hleaves.pc)⟩

theorem housed_of_reach {c : Offload → Action → Prop} (h : (machine self).Reach c s) :
    Housed s :=
  Machine.Path.invariant h (housed_initial self) fun _ _ _ _ hs ht => (housed_step hs ht).1

/-- **After a stop, the steps of `run` are numbered**, whatever else happens. -/
theorem leads_to_end (self : Config) (c : Offload → Action → Prop) :
    (machine self).Leads c ofRun (fun s => Housed s ∧ s.loop.stopMe = true) (fun _ => False)
      (fun s => s.loop.pc.toEnd) where
  step s a t _ hs ht := by
    obtain ⟨hstop, hle⟩ := toEnd_step hs.1 hs.2 ht
    exact .inr ⟨⟨(housed_step hs.1 ht).1, hstop⟩, hle⟩
  stays _ _ _ _ := False.elim

/-! ## There is a way to the end -/

/-- No delivery arrives. -/
def undelivered (_ : Offload) : Action → Prop
  | .deliver _ => False
  | _ => True

/-- The I/O thread has ended: `run` is over, or the thread has not come back from a function
that is over, since an exception has left that which `run` does not catch. -/
def ended (s : Offload) : Bool := s.loop.pc.ended || s.task.any fun task => task.rest.done

/-- The loop is to stop, and everybody keeps the rules. -/
structure Ending (config : Config) (s : Offload) : Prop where
  housed : Housed s
  conserved : Conserved config s
  stopMe : s.loop.stopMe = true

theorem Ending.path {c : Offload → Action → Prop} (hs : Ending self s)
    (h : (machine self).Path c s t) : Ending self t :=
  Machine.Path.invariant h hs fun _ _ _ _ hs ht => ⟨(housed_step hs.housed ht).1,
    conserved_step hs.conserved ht, (toEnd_step hs.housed hs.stopMe ht).1⟩

/-- The listener follows `run`, while the I/O thread is in no function, and
`stop_listening`. -/
theorem exists_loop {c : ListenerLoop → ListenerLoop.Action → Prop} {l : ListenerLoop}
    (hc : ∀ l raises runs draw, c l (.io raises runs draw) → s.task = none)
    (h : (ListenerLoop.machine self.loop).Path c s.loop l) :
    ∃ shut, (machine self).Path undelivered s { s with loop := l, shut := shut } := by
  refine Machine.Path.invariant
    (P := fun l => ∃ shut, (machine self).Path undelivered s { s with loop := l, shut := shut }) h
    ⟨s.shut, Machine.Path.refl s⟩ ?_
  rintro l a l' ha ⟨shut, ih⟩ hl
  have hstep : l.step self.loop a = some l' := hl
  suffices ∃ shut', stepLoop self { s with loop := l, shut := shut } a =
      some { s with loop := l', shut := shut' } by
    obtain ⟨shut', ht⟩ := this
    exact ⟨shut', ih.snoc (a := .loop a) trivial ht⟩
  cases a with
  | io raises runs draw =>
    have hnone := hc l raises runs draw ha
    have hio : l.io self.loop raises runs draw = some l' := hstep
    exact ⟨shut, by simp [stepLoop, hnone, hio]⟩
  | stop =>
    have hstop : l.stop = some l' := hstep
    refine ⟨shut || l.stopping == .set, ?_⟩
    simp only [stepLoop, hstop, Option.map_some]
  | callStop | tick | lose | loseChannel =>
    exact ⟨shut, by simp only [stepLoop, hstep, Option.map_some]⟩

theorem Called.stopping (h : Called s t) : t.loop.stopping = s.loop.stopping := by
  obtain ⟨stats, hloop⟩ := h.loop
  rw [hloop]

/-- What the workers leave alone. -/
theorem workers_leave (h : (machine self).Path (onlyOffloaded answers) s t) :
    t.exit = s.exit ∧ t.loop.stopping = s.loop.stopping := by
  refine Machine.Path.invariant
    (P := fun t => t.exit = s.exit ∧ t.loop.stopping = s.loop.stopping) h ⟨rfl, rfl⟩ ?_
  rintro t a u ⟨i, rfl⟩ ⟨hexit, hstopping⟩ hu
  obtain ⟨w, o, k, -, -, rfl | ⟨p, hcall, rfl⟩⟩ := work_cases hu
  · exact ⟨hexit, hstopping⟩
  · have hcalled := (call_changes hcall).1
    exact ⟨hcalled.exit.trans hexit, hcalled.stopping.trans hstopping⟩

/-- All calls work, but `submit` does not take the callback. -/
def refusing : ∀ o : Op, o.Ans
  | .submit => .error .exception
  | o => answering (.ok .value) (.ok ()) (.ok ()) o

/-- `add_done_callback` returns when `_on_done` is over. -/
theorem exists_addDone (hrest : ∀ w ∈ s.workers, w.rest.done = true) :
    ∃ r, s.addDone = some r := by
  unfold addDone
  cases hlate : s.late with
  | false => exact ⟨true, rfl⟩
  | true =>
    obtain ⟨w, hlast, -⟩ := (Option.any_eq_true _ _).mp (Bool.and_eq_true_iff.mp hlate).2
    have hdone := hrest w (List.mem_of_getLast? hlast)
    simp only [if_true, hlast, Option.bind_some]
    cases hw : w.rest with
    | pure a => exact ⟨true, rfl⟩
    | raise x => cases x <;> exact ⟨_, rfl⟩
    | call o k => rw [hw] at hdone; cases hdone

/-- With the workers at rest there is a permit for the wrapper. -/
theorem exists_call (hs : Conserved self s) (hrest : ∀ w ∈ s.workers, w.rest.done = true)
    {task : Task} (htask : s.task = some task) {o : Op} {k : o.Ans → Code Unit}
    (hcall : task.rest = .call o k) :
    ∃ p, s.call self .io task.delivery refusing o = some p ∧ p.1.workers = s.workers := by
  have hwp := hs.task task htask
  rw [hcall] at hwp
  have hguard := hwp.1
  cases o
  case acquire =>
    have hfree : s.holds = false := by
      simp only [holds, htask, Option.any_some]
      exact hguard
    have hzero : s.workers.countP (fun w => !w.rest.done) = 0 := by
      rw [List.countP_eq_zero]
      intro w hw
      simp [hrest w hw]
    have hpermits : s.permits = self.inFlight := by
      have hsum := hs.permits
      simpa [held, hfree, hzero] using hsum
    have hpos : s.permits ≠ 0 := by
      rw [hpermits]
      unfold Config.inFlight
      omega
    refine ⟨({ s with permits := s.permits - 1 }, .ok ()), ?_, rfl⟩
    simp [call, hpos]
  case addDoneCallback =>
    obtain ⟨r, hr⟩ := exists_addDone hrest
    exact ⟨(s, r), by simp [call, hr], rfl⟩
  case addCallbackThreadsafe schedule =>
    obtain ⟨scheduled, heq⟩ := exists_addCallback s task.delivery schedule
    exact ⟨_, rfl, by rw [heq]⟩
  all_goals exact ⟨_, rfl, rfl⟩

/-- **The function that the I/O thread is in ends**, with the workers at rest. -/
theorem task_finishes (p : Code Unit) :
    ∀ (s : Offload) (task : Task), Conserved self s → (∀ w ∈ s.workers, w.rest.done = true) →
      s.task = some task → task.rest = p → p.done = false →
      ∃ t, (machine self).Path undelivered s t ∧ (t.task = none ∨ t.ended = true) ∧
        t.workers = s.workers ∧ t.exit = s.exit ∧ t.loop.stopping = s.loop.stopping := by
  induction p with
  | pure a => exact fun _ _ _ _ _ _ hdone => absurd hdone (by simp)
  | raise e => exact fun _ _ _ _ _ _ hdone => absurd hdone (by simp [Program.done])
  | call o k ih =>
    intro s task hs hrest htask hcall _
    obtain ⟨q, hq, hworkers⟩ := exists_call hs hrest htask hcall
    have hcalled := (call_changes hq).1
    let task' := task.answer o k q.2
    have ht : s.step self (.runTask refusing) = some (q.1.goOn task') := by
      simp only [step, runTask, htask, Option.bind_some, hcall, hq, Option.map_some, task']
    have hpath : (machine self).Path undelivered s (q.1.goOn task') :=
      (Machine.Path.refl s).snoc (a := .runTask refusing) trivial ht
    have hkept : (q.1.goOn task').workers = s.workers :=
      (goOn_rest q.1 task').1.trans hworkers
    have hsame : (q.1.goOn task').exit = s.exit ∧
        (q.1.goOn task').loop.stopping = s.loop.stopping := by
      unfold goOn
      split <;> exact ⟨hcalled.exit, by simpa [ListenerLoop.pump] using hcalled.stopping⟩
    cases hnext : k q.2 with
    | pure a =>
      refine ⟨_, hpath, .inl ?_, hkept, hsame⟩
      simp only [goOn, task', Task.answer, hnext]
    | raise e =>
      refine ⟨_, hpath, ?_, hkept, hsame⟩
      cases e with
      | exception => left; simp only [goOn, task', Task.answer, hnext]
      | baseException => right; simp [goOn, task', Task.answer, hnext, ended, Program.done]
    | call o' k' =>
      have hgoes : (q.1.goOn task').task = some task' := by
        simp only [goOn, task', Task.answer, hnext]
      obtain ⟨t, hrun, hover, hw, hexit, hstopping⟩ := ih q.2 (q.1.goOn task') task'
        (conserved_step hs ht) (hkept ▸ hrest) hgoes rfl (by rw [hnext]; rfl)
      exact ⟨t, hpath.trans hrun, hover, hw.trans hkept, hexit.trans hsame.1,
        hstopping.trans hsame.2⟩

/-- **The I/O thread can end**, with the workers at rest. -/
theorem exists_ended (hs : Ending self s) (hrest : ∀ w ∈ s.workers, w.rest.done = true) :
    ∃ t, (machine self).Path undelivered s t ∧ t.ended = true ∧ t.workers = s.workers ∧
      t.exit = s.exit ∧ t.loop.stopping = s.loop.stopping := by
  -- without a function to finish it follows `run`
  have hloop : ∀ s : Offload, Ending self s → s.task = none →
      ∃ t, (machine self).Path undelivered s t ∧ t.ended = true ∧ t.workers = s.workers ∧
        t.exit = s.exit ∧ t.loop.stopping = s.loop.stopping := by
    intro s hs hnone
    obtain ⟨l, hl, hover⟩ := ListenerLoop.exists_ended self.loop hs.stopMe
    obtain ⟨shut, ht⟩ := exists_loop (s := s) (fun _ _ _ _ _ => hnone) hl
    have hsame : l.stopping = s.loop.stopping := by
      refine Machine.Path.invariant (P := fun l => l.stopping = s.loop.stopping) hl rfl ?_
      intro l a l' ha ih hl
      have hstep : l.step self.loop a = some l' := hl
      cases a with
      | io raises runs draw => exact (ListenerLoop.io_leaves hstep).1.1.trans ih
      | tick dt =>
        obtain ⟨-, rfl⟩ := ListenerLoop.step_cases hstep
        exact ih
      | callStop | stop | lose | loseChannel => cases ha
    exact ⟨_, ht, by simp [ended, hover], rfl, rfl, hsame⟩
  cases htask : s.task with
  | none => exact hloop s hs htask
  | some task =>
    by_cases hdone : task.rest.done = true
    · exact ⟨s, Machine.Path.refl s, by simp [ended, htask, hdone], rfl, rfl, rfl⟩
    · obtain ⟨t, ht, hover, hworkers, hexit, hstopping⟩ := task_finishes task.rest s task
        hs.conserved hrest htask rfl (by simpa using hdone)
      rcases hover with hnone | hended
      · obtain ⟨u, hu, hended, hworkers', hexit', hstopping'⟩ := hloop t (hs.path ht) hnone
        exact ⟨u, ht.trans hu, hended, hworkers'.trans hworkers, hexit'.trans hexit,
          hstopping'.trans hstopping⟩
      · exact ⟨t, ht, hended, hworkers, hexit, hstopping⟩

/-- The thread that leaves the `with` block returns, once nobody else has anything to do. -/
theorem exists_returned (self : Config) (hidle : s.loop.stopping = .idle)
    (hrest : ∀ w ∈ s.workers, w.rest.done = true) (hexit : s.exit ≠ .inside) :
    (machine self).Path undelivered s { s with exit := .returned } := by
  have hwaits : ∀ s : Offload, (∀ w ∈ s.workers, w.rest.done = true) → s.exit = .waiting →
      (machine self).Path undelivered s { s with exit := .returned } := by
    intro s hrest hexit
    refine (Machine.Path.refl s).snoc (a := .leave) trivial ?_
    have hall : (s.pool.all fun w => w.rest.done) = true :=
      List.all_eq_true.mpr fun w hw => hrest w ((pool_sublist s).subset hw)
    simp only [machine, step, leave, hexit, hall, if_true]
  cases hpc : s.exit with
  | inside => exact absurd hpc hexit
  | stopping =>
    have hstep : (machine self).Path undelivered s { s with exit := .waiting } := by
      refine (Machine.Path.refl s).snoc (a := .leave) trivial ?_
      simp only [machine, step, leave, hpc, hidle, if_true]
    exact hstep.trans (hwaits { s with exit := .waiting } hrest rfl)
  | waiting => exact hwaits s hrest hpc
  | returned =>
    have hsame : { s with exit := .returned } = s := by rw [← hpc]
    rw [hsame]
    exact Machine.Path.refl s

/-- **There is a way to the end**, from wherever the threads are. -/
theorem exists_rest (hs : Ending self s) :
    ∃ t, (machine self).Path undelivered s t ∧ t.ended = true ∧ t.loop.stopping = .idle ∧
      (∀ w ∈ t.workers, w.rest.done = true) ∧ (s.exit ≠ .inside → t.exit = .returned) := by
  -- `stop_listening` returns, the workers finish, and the I/O thread ends
  obtain ⟨l, hl, hidle⟩ := ListenerLoop.exists_idle self.loop s.loop
  obtain ⟨shut, ht⟩ := exists_loop (s := s) (fun _ _ _ _ h => by cases h) hl
  obtain ⟨u, hu, hzero, -⟩ := workers_finish refusing _ _ (hs.path ht).conserved rfl
  have hu' : (machine self).Path undelivered _ u := hu.mono fun _ _ ⟨_, ha⟩ => ha ▸ trivial
  obtain ⟨hexit, hstopping⟩ := workers_leave hu
  have hrest : ∀ w ∈ u.workers, w.rest.done = true := by
    intro w hw
    have hnone := List.countP_eq_zero.mp hzero w hw
    simpa using hnone
  obtain ⟨v, hv, hended, hworkers, hexit', hstopping'⟩ :=
    exists_ended ((hs.path ht).path hu') hrest
  have hpath := (ht.trans hu').trans hv
  have hidle' : v.loop.stopping = .idle := (hstopping'.trans hstopping).trans hidle
  have hrest' : ∀ w ∈ v.workers, w.rest.done = true := hworkers ▸ hrest
  by_cases hinside : s.exit = .inside
  · exact ⟨v, hpath, hended, hidle', hrest', fun h => absurd hinside h⟩
  · have hleaves : v.exit ≠ .inside := by
      rw [hexit', hexit]
      exact hinside
    exact ⟨_, hpath.trans (exists_returned self hidle' hrest' hleaves), hended, hidle', hrest',
      fun _ => rfl⟩

/-- **A stop completes.**  Once `stop_me` is set, `run` takes seven more steps at most,
whatever fails and however the threads interleave.  And the threads never wait for each
other: from every state there is a run, without another delivery, in which `stop_listening`
returns, the workers finish, the I/O thread ends, and who leaves the `with` block has
left it. -/
theorem stop_completes {c : Offload → Action → Prop} (h : (machine self).Reach c s)
    (hstop : s.loop.stopMe = true) :
    (machine self).AtMost Machine.anyStep ofRun 7 s ∧
      ∃ t, (machine self).Path undelivered s t ∧ t.ended = true ∧ t.loop.stopping = .idle ∧
        (∀ w ∈ t.workers, w.rest.done = true) ∧ (s.exit ≠ .inside → t.exit = .returned) := by
  have hhoused := housed_of_reach h
  refine ⟨fun t k hk => ?_, exists_rest ⟨hhoused, conserved_of_reach h, hstop⟩⟩
  rcases (leads_to_end self Machine.anyStep).reaches ⟨hhoused, hstop⟩ hk with hfalse | ⟨-, hle⟩
  · exact hfalse.elim
  · have := s.loop.pc.toEnd_le
    omega

/-- The I/O thread waits for a permit, the workers have not run the two callbacks that hold
the permits, and the thread in `__exit__` waits for the workers. -/
def blocked : Offload :=
  reached (firstPump ++ handOver 1 5 ++ handOver 2 5 ++ handOver 3 2 ++
    .leave :: List.replicate 4 (.loop .stop) ++ [.leave])

theorem stop_completes_blocked :
    blocked.task.isSome = true ∧ (blocked.runTask poolConfig refusing).isNone = true ∧
      blocked.exit = .waiting ∧
      (machine poolConfig).AtMost Machine.anyStep ofRun 7 blocked ∧
      ∃ t, (machine poolConfig).Path undelivered blocked t ∧ t.ended = true ∧
        t.loop.stopping = .idle ∧ (∀ w ∈ t.workers, w.rest.done = true) ∧
        (blocked.exit ≠ .inside → t.exit = .returned) :=
  ⟨by decide +kernel, by decide +kernel, by decide +kernel,
    stop_completes (reached_reach (by decide +kernel)) (by decide +kernel)⟩

end Offload

end MqAdapters
