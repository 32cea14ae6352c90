import MqAdapters.Delivery.Lawful
import MqAdapters.Offload.Permits
import MqAdapters.Theory.Hosting

/-!
# The listener hosts its deliveries

`Delivery.Paths` looks at one delivery at a time: the crew of the programs that it sets
going, under any answers.  Here the I/O thread, the workers and the functions that
`add_callback_threadsafe` took are programs of such crews, so the listener with its
reconnects, its semaphore and its stop runs one crew for each delivery.

* `live`: the programs under way; `made`: the call that a step makes.
* `change_step`: a step leaves programs, takes a delivery, or answers a call.
* `hosts`: so the calls of any run are an interleaving of the traces of its deliveries.
-/

namespace MqAdapters

open Python Theory Code

namespace Offload

/-- The path that the deliveries take. -/
def Config.path (self : Config) : Path := if self.listener.offload then .offload else .internal

/-- What is left to do for the delivery. -/
def Task.program (w : Task) : Delivery × Code Unit := (w.delivery, w.rest)

/-- The programs under way: in the I/O thread, submitted, and scheduled. -/
def live (s : Offload) : Multiset (Delivery × Code Unit) :=
  ↑(s.task.toList.map Task.program) + (↑(s.workers.map Task.program) +
    ↑(s.scheduled.map fun f => f.task.program))

variable (self : Config)

/-- The call that a step makes, with its delivery. -/
def made (s : Offload) : Action → Option (Delivery × Call)
  | .runTask answers => s.task.bind fun task => match task.rest with
    | .call o _ => (s.call self .io task.delivery answers o).map fun p => (task.delivery, ⟨o, p.2⟩)
    | .pure _ => none
    | .raise _ => none
  | .work i answers => (s.workers[i]?).bind fun w => match w.rest with
    | .call o _ =>
      -- the first read of the connection is no call
      if readsTwice o && !w.connectionSet && s.loop.connection.isSome then none
      else (s.call self (s.threadOf i) w.delivery answers o).map fun p => (w.delivery, ⟨o, p.2⟩)
    | .pure _ => none
    | .raise _ => none
  | _ => none

/-- What a step says: the delivery that it takes, or the call that it makes. -/
def told (s : Offload) : Action → Option (Delivery ⊕ (Delivery × Call))
  | .deliver d => some (.inl d)
  | a => (s.made self a).map .inr

variable {self} {s t : Offload} {i : Nat} {answers : ∀ o : Op, o.Ans}

/-! ## The call of a step -/

theorem told_of_made {a : Action} {x : Option (Delivery × Call)} (h : s.made self a = x)
    (ha : ∀ d, a ≠ .deliver d) : s.told self a = x.map .inr := by
  subst h
  cases a
  case deliver d => exact absurd rfl (ha d)
  all_goals rfl

theorem runTask_made (ht : s.runTask self answers = some t) :
    ∃ task o k p, s.task = some task ∧ task.rest = .call o k ∧
      s.call self .io task.delivery answers o = some p ∧ t = p.1.goOn (task.answer o k p.2) ∧
      s.made self (.runTask answers) = some (task.delivery, ⟨o, p.2⟩) := by
  obtain ⟨task, o, k, p, htask, hrest, hcall, rfl⟩ := runTask_cases ht
  exact ⟨task, o, k, p, htask, hrest, hcall, rfl, by simp [made, htask, hrest, hcall]⟩

theorem work_made (ht : s.work self i answers = some t) :
    ∃ w o k, s.workers[i]? = some w ∧ w.rest = .call o k ∧
      (t = { s with workers := s.workers.set i { w with connectionSet := true } } ∧
          s.made self (.work i answers) = none ∨
        ∃ p, s.call self (s.threadOf i) w.delivery answers o = some p ∧
          t = { p.1 with workers := p.1.workers.set i (w.answer o k p.2) } ∧
          s.made self (.work i answers) = some (w.delivery, ⟨o, p.2⟩)) := by
  obtain ⟨w, hi, ht⟩ := Option.bind_eq_some_iff.mp ht
  cases hrest : w.rest with
  | pure a => simp only [hrest] at ht; cases ht
  | raise x => simp only [hrest] at ht; cases ht
  | call o k =>
    simp only [hrest] at ht
    refine ⟨w, o, k, hi, hrest, ?_⟩
    split at ht
    · cases ht
    · split at ht
      · next hfirst =>
        refine .inl ⟨?_, by simp only [made, hi, hrest, Option.bind_some, if_pos hfirst]⟩
        rw [hrest]
        exact (Option.some.inj ht).symm
      · next hfirst =>
        obtain ⟨p, hcall, rfl⟩ := Option.map_eq_some_iff.mp ht
        exact .inr ⟨p, hcall, rfl, by
          simp only [made, hi, hrest, Option.bind_some, if_neg hfirst, hcall, Option.map_some]⟩

/-- What a call starts are the workers and the scheduled functions that are new. -/
theorem call_started {thread : Thread} {d : Delivery} {o : Op} {p : Offload × o.Ans}
    (h : s.call self thread d answers o = some p) :
    ∃ fs : List Scheduled, p.1.scheduled = s.scheduled ++ fs ∧
      (↑((spawned self d ⟨o, p.2⟩).map Task.program) + ↑(fs.map fun f => f.task.program) :
        Multiset (Delivery × Code Unit)) =
        starts (fun d l => l.code self.listener.toSettings d) started d ⟨o, p.2⟩ := by
  cases o
  case acquire =>
    simp only [call] at h
    split at h <;> cases h
    exact ⟨[], (List.append_nil _).symm, rfl⟩
  case submit =>
    simp only [call] at h
    split at h
    · split at h <;> cases h
      exact ⟨[], (List.append_nil _).symm, rfl⟩
    · cases h
      exact ⟨[], (List.append_nil _).symm, rfl⟩
  case addDoneCallback =>
    obtain ⟨r, -, rfl⟩ := Option.map_eq_some_iff.mp h
    exact ⟨[], (List.append_nil _).symm, rfl⟩
  case callback =>
    simp only [call] at h
    split at h <;> cases h
    all_goals exact ⟨[], (List.append_nil _).symm, rfl⟩
  case addCallbackThreadsafe schedule =>
    cases h
    unfold addCallback
    split
    · exact ⟨[], (List.append_nil _).symm, rfl⟩
    · split
      · exact ⟨_, rfl, rfl⟩
      · exact ⟨[], (List.append_nil _).symm, rfl⟩
  all_goals
    cases h
    exact ⟨[], (List.append_nil _).symm, rfl⟩

/-! ## Every step is a change -/

theorem wrapper_program (self : Config) (d : Delivery) :
    (wrapper self d).program = (d, self.path.job.code self.listener.toSettings d) := by
  obtain ⟨loop, ⟨settings, _ | _⟩, m, n⟩ := self
  all_goals rfl

/-- The I/O thread leaves a task that is over, or goes on with it. -/
theorem goOn_live (s : Offload) (task : Task) :
    Covers Over (task.program ::ₘ
      (↑(s.workers.map Task.program) + ↑(s.scheduled.map fun f => f.task.program)))
      (s.goOn task).live := by
  have hstays : ∀ loop, live { s with task := some task, loop := loop } = task.program ::ₘ
      (↑(s.workers.map Task.program) + ↑(s.scheduled.map fun f => f.task.program)) :=
    fun _ => Multiset.singleton_add _ _
  have hleaves : ∀ loop, live { s with task := none, loop := loop } =
      ↑(s.workers.map Task.program) + ↑(s.scheduled.map fun f => f.task.program) :=
    fun _ => Multiset.zero_add _
  unfold goOn
  split
  · next hrest => exact hleaves s.loop ▸ Covers.cons (by simp [Over, Task.program, hrest])
  · next hrest => exact hleaves _ ▸ Covers.cons (by simp [Over, Task.program, hrest, Program.done])
  · exact .of_eq (hstays s.loop).symm
  · exact .of_eq (hstays s.loop).symm

theorem live_same {s t : Offload} (htask : t.task = s.task) (hworkers : t.workers = s.workers)
    (hscheduled : t.scheduled = s.scheduled) : t.live = s.live := by
  unfold live
  rw [htask, hworkers, hscheduled]

/-- A call on the I/O thread. -/
theorem change_runTask (ht : s.runTask self answers = some t) :
    Change (fun d l => l.code self.listener.toSettings d) started self.path.job Over s.live t.live
      (s.told self (.runTask answers)) := by
  obtain ⟨task, o, k, p, htask, hrest, hcall, rfl, hmade⟩ := runTask_made ht
  obtain ⟨fs, hfs, hstarted⟩ := call_started hcall
  obtain ⟨hw, -⟩ := (call_changes hcall).2
  rw [told_of_made hmade (by simp)]
  refine .answer _ o k p.2
    (↑(s.workers.map Task.program) + ↑(s.scheduled.map fun f => f.task.program)) ?_
    (Covers.trans (.of_eq ?_) (goOn_live p.1 (task.answer o k p.2)))
  · rw [live, htask, ← hrest]
    exact Multiset.singleton_add _ _
  · rw [← hstarted, hw, hfs, show (task.answer o k p.2).program = (task.delivery, k p.2) from rfl]
    simp only [List.map_append, ← Multiset.coe_add]
    refine congrArg _ ?_
    abel

/-- A call of a submitted callback or its `_on_done`. -/
theorem change_work (ht : s.work self i answers = some t) :
    Change (fun d l => l.code self.listener.toSettings d) started self.path.job Over s.live t.live
      (s.told self (.work i answers)) := by
  obtain ⟨w, o, k, hi, hrest, ⟨rfl, hmade⟩ | ⟨p, hcall, rfl, hmade⟩⟩ := work_made ht
  · rw [told_of_made hmade (by simp)]
    refine .rest (.of_eq (Eq.symm ?_))
    have hw : (s.workers.map Task.program)[i]? = some w.program := by simp [hi]
    have hset := (Multiset.cons_inj_right _).mp (coe_set hw w.program)
    simp only [live, List.map_set]
    rw [← hset]
    rfl
  · obtain ⟨fs, hfs, hstarted⟩ := call_started hcall
    obtain ⟨hcalled, hworkers, -⟩ := call_changes hcall
    have hlt := (List.getElem?_eq_some_iff.mp hi).1
    have hw : (s.workers.map Task.program)[i]? = some w.program := by simp [hi]
    have hset := coe_set hw (w.answer o k p.2).program
    have herase := coe_eraseIdx hw
    rw [told_of_made hmade (by simp)]
    refine .answer _ o k p.2 (↑(s.task.toList.map Task.program) +
      (↑((s.workers.map Task.program).eraseIdx i) + ↑(s.scheduled.map fun f => f.task.program)))
      ?_ (.of_eq (Eq.symm ?_))
    · rw [live, ← herase, ← hrest]
      simp only [Task.program, ← Multiset.singleton_add]
      abel
    · have hnew : (↑((p.1.workers.set i (w.answer o k p.2)).map Task.program) : Multiset _) =
          (w.answer o k p.2).program ::ₘ (↑((s.workers.map Task.program).eraseIdx i) +
            ↑((spawned self w.delivery ⟨o, p.2⟩).map Task.program)) := by
        rw [← herase, Multiset.cons_swap] at hset
        have hset := (Multiset.cons_inj_right _).mp hset
        rw [hworkers, List.set_append_left _ _ hlt, List.map_append, List.map_set,
          ← Multiset.coe_add, hset, Multiset.cons_add]
      simp only [live]
      rw [hnew, hcalled.task, hfs, ← hstarted]
      simp only [List.map_append, ← Multiset.coe_add, ← Multiset.singleton_add]
      rw [show (w.answer o k p.2).program = (w.delivery, k p.2) from rfl]
      abel

/-- **Every step is a change of the programs under way.** -/
theorem change_step {a : Action} (ht : s.step self a = some t) :
    Change (fun d l => l.code self.listener.toSettings d) started self.path.job Over s.live t.live
      (s.told self a) := by
  have hc := step_cases ht
  cases a with
  | loop a =>
    obtain ⟨loop, shut, -, rfl, -⟩ := hc
    exact .rest (.of_eq (live_same rfl rfl rfl).symm)
  | deliver d =>
    obtain ⟨⟨-, hnone⟩, -, rfl⟩ := hc
    refine .arrive d (.of_eq ?_)
    rw [← wrapper_program self d]
    simp only [live, hnone, ← Multiset.singleton_add]
    rfl
  | runScheduled j =>
    obtain ⟨f, hj, ⟨-, hnone⟩, rfl⟩ := hc
    refine .rest (.of_eq (Eq.symm ?_))
    have hf : (s.scheduled.map fun f => f.task.program)[j]? = some f.task.program := by simp [hj]
    have herase := coe_eraseIdx hf
    rw [List.eraseIdx_map] at herase
    simp only [live, hnone]
    rw [← herase]
    simp only [Option.toList_some, Option.toList_none, List.map_cons, List.map_nil,
      Multiset.coe_singleton, Multiset.coe_nil, ← Multiset.singleton_add]
    abel
  | runRequest raises =>
    obtain ⟨-, rfl⟩ := hc
    exact .rest (.of_eq (live_same rfl rfl rfl).symm)
  | runTask answers => exact change_runTask hc
  | work i answers => exact change_work hc
  | leave =>
    obtain ⟨loop, exit, -, rfl⟩ := hc
    exact .rest (.of_eq (live_same rfl rfl rfl).symm)

/-! ## The deliveries of a run -/

section

variable {c : Offload → Action → Prop} {log : List (Delivery ⊕ (Delivery × Call))}

/-- The crews of a run. -/
theorem exists_deliveries
    (h : ((machine self).logged (told self)).Reach (fun p a => c p.1 a) (s, log)) :
    ∃ f, (deliveries self.path self.listener.toSettings).Reach (deliveryAnswers anyAnswer) f.1 ∧
      Interleaves f ∧ Runs Over live (s, log) f := by
  obtain ⟨f, hf, hruns⟩ := exists_family (answering (.ok .value) (.ok ()) (.ok ()))
    (P := anyAnswer) rfl (fun _ _ _ _ _ ht => ⟨change_step ht, fun _ _ => trivial⟩) h
  exact ⟨f, hf.of_logged, trace_of_log hf, hruns⟩

/-- Nothing is under way: no function on the I/O thread, no worker, nothing scheduled. -/
def idle (s : Offload) : Bool :=
  s.task.isNone && s.workers.all (fun w => w.rest.done) && s.scheduled.isEmpty

theorem done_of_idle (h : s.idle = true) {x : Delivery × Code Unit} (hx : x ∈ s.live) :
    x.2.done = true := by
  simp only [idle, Bool.and_eq_true, Option.isNone_iff_eq_none, List.isEmpty_iff] at h
  obtain ⟨⟨htask, hworkers⟩, hscheduled⟩ := h
  simp only [live, htask, hscheduled] at hx
  obtain ⟨w, hw, rfl⟩ := List.mem_map.mp (show x ∈ s.workers.map Task.program by simpa using hx)
  exact List.all_eq_true.mp hworkers w hw

/-- **The listener runs a crew for each delivery.**  In any run, with every reconnect, stop
and interleaving, the calls made so far are an interleaving of what the deliveries do on
their own; and once the listener is idle, every delivery is handled to the end. -/
theorem hosts (h : ((machine self).logged (told self)).Reach (fun p a => c p.1 a) (s, log)) :
    ∃ (sys : List (Delivery × Handling)) (owned : List (Nat × Delivery × Call)),
      (deliveries self.path self.listener.toSettings).Reach (deliveryAnswers anyAnswer) sys ∧
      sys.map Prod.fst = arrived log ∧ owned.map Prod.snd = answered log ∧
      (∀ n d handling, sys[n]? = some (d, handling) →
        (owned.filter (·.1 == n)).map (·.2.2) = handling.trace) ∧
      (∀ x ∈ owned, ∃ handling, sys[x.1]? = some (x.2.1, handling)) ∧
      (s.idle = true → ∀ p ∈ sys, p.2.Complete) := by
  obtain ⟨f, hf, hinterleaves, hdata, hlog, hlive⟩ := exists_deliveries h
  refine ⟨f.1, f.2, hf, hdata, hlog, hinterleaves.traces, hinterleaves.owners, ?_⟩
  rintro hidle ⟨d, handling⟩ hp t ht
  by_contra hdone
  have hmem : (d, t.rest) ∈ programs f.1 := mem_programs hp ht
  exact hdone (done_of_idle hidle (hlive.mem hmem hdone))

/-- A delivery is handed to a worker, which schedules its ack, and that is sent. -/
def settled : Offload × List (Delivery ⊕ (Delivery × Call)) :=
  (((machine poolConfig).logged (told poolConfig)).runIn (fun _ _ => true)
    ((machine poolConfig).logged (told poolConfig)).init (firstPump ++ handOver 1 5 ++ works 0 5 ++
      .runScheduled 0 ::
        List.replicate 2 (.runTask (answering (.ok .value) (.ok ()) (.ok ()))))).getD
    ((machine poolConfig).logged (told poolConfig)).init

theorem settled_reach : ((machine poolConfig).logged (told poolConfig)).Reach
    (fun _ _ => true = true) settled :=
  Machine.path_of_isSome (by decide +kernel) ((machine poolConfig).logged (told poolConfig)).init

theorem hosts_settled :
    settled.1.idle = true ∧ (answered settled.2).length = 11 ∧
      ∃ (sys : List (Delivery × Handling)) (owned : List (Nat × Delivery × Call)),
        (deliveries poolConfig.path poolConfig.listener.toSettings).Reach
          (deliveryAnswers anyAnswer) sys ∧
        sys.map Prod.fst = arrived settled.2 ∧ owned.map Prod.snd = answered settled.2 ∧
        (∀ n d handling, sys[n]? = some (d, handling) →
          (owned.filter (·.1 == n)).map (·.2.2) = handling.trace) ∧
        (∀ x ∈ owned, ∃ handling, sys[x.1]? = some (x.2.1, handling)) ∧
        (settled.1.idle = true → ∀ p ∈ sys, p.2.Complete) :=
  ⟨by decide +kernel, by decide +kernel,
    hosts (c := fun _ _ => true = true) settled_reach⟩

end

end Offload

end MqAdapters
