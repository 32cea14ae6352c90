import MqAdapters.Delivery.Paths
import MqAdapters.Listener.Stop
import MqAdapters.Offload.Model

/-!
# The permits of the worker pool

`_offload_wrapper` acquires a permit on the I/O thread and gives it to the callback
that it submits; `_on_done` releases it, or the wrapper itself if `submit` raises.
`_on_done` runs on the worker, or on the I/O thread inside `add_done_callback`.

* `permitRules`: the wrapper submits and releases only with a permit, and ends with
  none.
* `releaseRules`: `_on_done` releases once, as its last call, and never waits.
* `Conserved`: the permits that are left and those that are held are `max_in_flight`.
* `permits_conserved`: so in every reachable state; and from there the callbacks and
  their `_on_done` give back all permits by their own steps.
* `release_waits`: one of them can be left to the I/O thread.
-/

namespace MqAdapters

open Python Theory Code

namespace Offload

/-! ## The permit of a delivery -/

/-- After the call, the wrapper holds a permit. -/
def hold (holding : Bool) : Call → Bool
  | ⟨.acquire, _⟩ => true
  | ⟨.submit, r⟩ => match r with
    | .ok _ => false
    | .error _ => holding
  | ⟨.release, _⟩ => false
  | _ => holding

/-- The wrapper holds a permit after these calls. -/
def holding (past : List Call) : Bool := past.foldl hold false

@[simp] theorem holding_nil : holding [] = false := rfl

@[simp] theorem holding_append (past past' : List Call) :
    holding (past ++ past') = past'.foldl hold (holding past) := List.foldl_append

/-- What the semaphore and `submit` answer on the I/O thread. -/
def granted : Call → Prop
  | ⟨.acquire, r⟩ => r = .ok ()
  | ⟨.submit, r⟩ => r ≠ .error .baseException
  | _ => True

/-- A permit is acquired once, and only one that is held is handed on or released. -/
def permitRules : Program.Rules Op Op.Ans Empty where
  allowed := granted
  guard past
    | .acquire => holding past = false
    | .submit | .release => holding past = true
    | _ => True
  spawn _ := []
  pre _ _ := True

@[simp] theorem permitRules_allowed (e : Call) : permitRules.allowed e ↔ granted e := Iff.rfl

@[simp] theorem permitRules_spawn (e : Call) : permitRules.spawn e = [] := rfl

/-- How many permits the calls give back. -/
def releases (past : List Call) : Nat := (past.map fun e => given e.op).sum

@[simp] theorem releases_nil : releases [] = 0 := rfl

@[simp] theorem releases_append (past past' : List Call) :
    releases (past ++ past') = releases past + releases past' := by
  simp [releases]

@[simp] theorem releases_cons (e : Call) (past : List Call) :
    releases (e :: past) = given e.op + releases past := by
  simp [releases]

/-- A worker makes no call after its release, and none that waits. -/
def releaseRules : Program.Rules Op Op.Ans Empty where
  allowed _ := True
  guard past
    | .acquire | .submit | .addDoneCallback => False
    | _ => releases past = 0
  spawn _ := []
  pre _ _ := True

@[simp] theorem releaseRules_allowed (e : Call) : releaseRules.allowed e ↔ True := Iff.rfl

@[simp] theorem releaseRules_spawn (e : Call) : releaseRules.spawn e = [] := rfl

section

variable {past : List Call}

@[simp] theorem permitRules_guard (o : Op) : permitRules.guard past o ↔ match o with
    | .acquire => holding past = false
    | .submit | .release => holding past = true
    | _ => True := by
  cases o <;> rfl

@[simp] theorem releaseRules_guard (o : Op) : releaseRules.guard past o ↔ match o with
    | .acquire | .submit | .addDoneCallback => False
    | _ => releases past = 0 := by
  cases o <;> rfl

variable {self : Settings} {ch : Nat} {method : Method} {properties : Option BasicProperties}
  {body : Bytes}

theorem internalWrapper_permits (h : holding past = false) :
    (internalWrapper self ch method properties body).wp permitRules
      (fun past _ => holding past = false) past := by
  rcases method with ⟨_ | tag⟩
  all_goals simp [internalWrapper, Program.wp_ite, hold, granted, h]

/-- **The wrapper gives its permit to the worker, or releases it.** -/
theorem offloadWrapper_permits (self : Listener) (h : holding past = false) :
    (offloadWrapper self ch method properties body).wp permitRules
      (fun past _ => holding past = false) past := by
  simp [offloadWrapper, Program.wp_ite, hold, granted, h]
  refine ⟨fun _ => internalWrapper_permits h, fun _ => ⟨?_, ?_⟩⟩
  all_goals exact internalWrapper_permits (by simp [hold])

theorem schedule_permits (schedule : Schedule) (h : holding past = false) :
    (schedule.run ch properties body).wp permitRules (fun past _ => holding past = false) past := by
  cases schedule with
  | ack tag => simp [Schedule.run, ackOffloaded, hold, granted, h]
  | fail tag cfg attempt =>
    rcases hq : cfg.poisonQueue attempt with _ | q
    all_goals simp [Schedule.run, handleFail, hq, Program.wp_ite, hold, granted, h]

theorem schedule_releases {schedule : Schedule} {Q : List Call → Except Raised Unit → Prop}
    (h : releases past = 0) (hQ : ∀ past r, releases past = 0 → Q past r) :
    (schedule.run ch properties body).wp releaseRules Q past := by
  refine Program.wp_mono (Q := fun past _ => releases past = 0) hQ _ _ ?_
  cases schedule with
  | ack tag => simp [Schedule.run, ackOffloaded, given, h]
  | fail tag cfg attempt =>
    rcases hq : cfg.poisonQueue attempt with _ | q
    all_goals simp [Schedule.run, handleFail, hq, Program.wp_ite, given, h]

/-- `_on_done` releases in its `finally`. -/
theorem onDone_releases {exc : Option Raised} (h : releases past = 0) :
    (onDone self ch method properties body exc).wp releaseRules (fun past _ => releases past = 1)
      past := by
  rcases method with ⟨_ | tag⟩ <;> rcases exc with _ | x
  all_goals simp [onDone, Program.wp_ite, given, h]
  all_goals
    refine fun _ =>
      ⟨schedule_releases (by simp [given, h]) ?_, schedule_releases (by simp [given, h]) ?_⟩
    · rintro past ((_ | _) | _) h
      · refine schedule_releases h ?_
        rintro past ((_ | _) | _) h <;> exact h
      · exact h
      · exact h
    · rintro past ((_ | _) | _) h <;> exact h

/-- **A worker releases its permit once**, whatever the callback, the channel and the
connection do. -/
theorem offloaded_releases (h : releases past = 0) :
    (offloaded self ch method properties body).wp releaseRules (fun past _ => releases past = 1)
      past := by
  simp [offloaded, h]
  refine ⟨⟨?_, ?_, ?_⟩, ?_, ?_⟩ <;> exact onDone_releases (by simp [given, h])

end

/-! ## The permits of all deliveries -/

/-- The function that the I/O thread is in holds a permit. -/
def holds (s : Offload) : Bool := s.task.any fun task => holding task.past

/-- The permits that are held: each submitted callback that is not over has one. -/
def held (s : Offload) : Nat :=
  s.workers.countP (fun w => !w.rest.done) + s.holds.toNat

/-- No permit is lost, and everybody keeps the rules. -/
structure Conserved (config : Config) (s : Offload) : Prop where
  task : ∀ task, s.task = some task →
    task.rest.wp permitRules (fun past _ => holding past = false) task.past
  workers : ∀ w ∈ s.workers, w.rest.wp releaseRules (fun past _ => releases past = 1) w.past
  permits : s.permits + s.held = config.inFlight

variable {self : Config} {s t : Offload} {d : Delivery} {w : Task} {i : Nat}

theorem conserved_initial (self : Config) : Conserved self (initial self) where
  task := nofun
  workers := nofun
  permits := rfl

/-- What a call on the I/O thread does to the permit of the wrapper. -/
theorem hold_balance (self : Config) (d : Delivery) {past : List Call} {o : Op} (r : o.Ans)
    (hguard : permitRules.guard past o) :
    (hold (holding past) ⟨o, r⟩).toNat + (spawned self d ⟨o, r⟩).length + given o =
      (holding past).toNat + taken o := by
  cases o
  case acquire =>
    have hfree : holding past = false := hguard
    simp [hold, spawned, given, taken, hfree]
  case release =>
    have hheld : holding past = true := hguard
    simp [hold, spawned, given, taken, hheld]
  case submit =>
    have hheld : holding past = true := hguard
    cases r <;> simp [hold, spawned, given, taken, hheld]
  all_goals simp [hold, spawned, given, taken]

/-- A function of the I/O thread that is over holds no permit. -/
theorem goOn_held (s : Offload) (task : Task)
    (hwp : task.rest.wp permitRules (fun past _ => holding past = false) task.past) :
    (s.goOn task).permits = s.permits ∧ (s.goOn task).workers = s.workers ∧
      (s.goOn task).holds = holding task.past := by
  unfold goOn
  cases hrest : task.rest with
  | pure a =>
    rw [hrest] at hwp
    exact ⟨rfl, rfl, (show holding task.past = false from hwp).symm⟩
  | raise x =>
    rw [hrest] at hwp
    cases x
    · exact ⟨rfl, rfl, (show holding task.past = false from hwp).symm⟩
    · exact ⟨rfl, rfl, rfl⟩
  | call o k => exact ⟨rfl, rfl, rfl⟩

theorem goOn_task {task task' : Task} (h : (s.goOn task).task = some task') : task' = task := by
  unfold goOn at h
  split at h
  · cases h
  · cases h
  · exact (Option.some.inj h).symm
  · exact (Option.some.inj h).symm

theorem goOn_rest (s : Offload) (task : Task) : (s.goOn task).workers = s.workers ∧
    (s.goOn task).scheduled = s.scheduled ∧ (s.goOn task).calls = s.calls ∧
    (s.goOn task).completed = s.completed := by
  unfold goOn
  split <;> exact ⟨rfl, rfl, rfl, rfl⟩

/-- The calls on the I/O thread are answered as the rules say. -/
theorem call_granted {thread : Thread} {answers : ∀ o : Op, o.Ans} {o : Op}
    {p : Offload × o.Ans} (h : s.call self thread d answers o = some p) : granted ⟨o, p.2⟩ := by
  cases o
  case acquire =>
    simp only [call] at h
    split at h <;> cases h
    rfl
  case submit =>
    simp only [call] at h
    split at h
    · split at h <;> cases h
      exact fun hr => by cases hr
    · cases h
      exact fun hr => by cases hr
  all_goals trivial

theorem spawned_cases {e : Call} (hw : w ∈ spawned self d e) : w = submitted self d := by
  unfold spawned at hw
  split at hw
  · split at hw
    · exact List.mem_singleton.mp hw
    · cases hw
  · cases hw

theorem countP_spawned (e : Call) :
    (spawned self d e).countP (fun w => !w.rest.done) = (spawned self d e).length := by
  rw [List.countP_eq_length]
  intro w hw
  rw [spawned_cases hw]
  rfl

theorem conserved_runTask {answers : ∀ o : Op, o.Ans} (hs : Conserved self s)
    (ht : s.runTask self answers = some t) : Conserved self t := by
  obtain ⟨task, o, k, p, htask, hrest, hcall, rfl⟩ := runTask_cases ht
  have hwp := hs.task task htask
  rw [hrest] at hwp
  obtain ⟨-, hworkers, hpermits⟩ := call_changes hcall
  have hwp' := (hwp.2 p.2 (call_granted hcall)).2
  obtain ⟨hsame, hkept, hholds⟩ := goOn_held p.1 (task.answer o k p.2) hwp'
  refine ⟨?_, ?_, ?_⟩
  · intro task' h
    obtain rfl := goOn_task h
    exact hwp'
  · rw [hkept, hworkers]
    intro w hw
    rcases List.mem_append.mp hw with hw | hw
    · exact hs.workers w hw
    · rw [spawned_cases hw]
      exact offloaded_releases rfl
  · have hbalance := hold_balance self task.delivery p.2 hwp.1
    have hbefore : s.permits + (s.workers.countP (fun w => !w.rest.done) +
        (holding task.past).toNat) = self.inFlight := by
      simpa [held, holds, htask] using hs.permits
    have hafter : holding (task.answer o k p.2).past = hold (holding task.past) ⟨o, p.2⟩ := by
      simp [Task.answer]
    rw [held, hkept, hsame, hholds, hafter, hworkers, List.countP_append, countP_spawned]
    omega

/-- A worker that keeps the rules is over when it has released, and not before. -/
theorem releases_eq (hwp : w.rest.wp releaseRules (fun past _ => releases past = 1) w.past) :
    releases w.past = w.rest.done.toNat := by
  cases hrest : w.rest with
  | pure a => rw [hrest] at hwp; exact hwp
  | raise x => rw [hrest] at hwp; exact hwp
  | call o k =>
    rw [hrest] at hwp
    have hguard := hwp.1
    rw [releaseRules_guard] at hguard
    split at hguard
    · cases hguard
    · cases hguard
    · cases hguard
    · exact hguard

/-- A worker acquires and submits nothing. -/
theorem plain_of_guard (self : Config) (d : Delivery) {past : List Call} {o : Op} (r : o.Ans)
    (h : releaseRules.guard past o) :
    taken o = 0 ∧ spawned self d ⟨o, r⟩ = [] ∧ releases past = 0 := by
  rw [releaseRules_guard] at h
  cases o
  case acquire | submit | addDoneCallback => cases h
  all_goals exact ⟨rfl, rfl, h⟩

theorem conserved_work {answers : ∀ o : Op, o.Ans} (hs : Conserved self s)
    (ht : s.work self i answers = some t) : Conserved self t := by
  obtain ⟨w, o, k, hi, hrest, rfl | ⟨p, hcall, rfl⟩⟩ := work_cases ht
  · have hw := hs.workers w (List.mem_of_getElem? hi)
    have hcount := countP_set_add (p := fun w : Task => !w.rest.done)
      (y := { w with connectionSet := true }) hi
    refine ⟨hs.task, ?_, ?_⟩
    · intro x hx
      rcases List.mem_or_eq_of_mem_set hx with hx | rfl
      · exact hs.workers x hx
      · exact hw
    · have hpermits := hs.permits
      simp only [held, holds] at hpermits hcount ⊢
      omega
  · have hw := hs.workers w (List.mem_of_getElem? hi)
    have hundone : w.rest.done = false := by rw [hrest]; rfl
    obtain ⟨hcalled, hworkers, hpermits⟩ := call_changes hcall
    have hwp := hw
    rw [hrest] at hwp
    have hwp' := (hwp.2 p.2 trivial).2
    obtain ⟨htaken, hspawned, hreleases⟩ := plain_of_guard self w.delivery p.2 hwp.1
    rw [hspawned, List.append_nil] at hworkers
    have hover := releases_eq (w := w.answer o k p.2) hwp'
    have hi' : p.1.workers[i]? = some w := hworkers ▸ hi
    have hcount := countP_set_add (p := fun w : Task => !w.rest.done) (y := w.answer o k p.2) hi'
    refine ⟨?_, ?_, ?_⟩
    · intro task htask
      exact hs.task task (hcalled.task ▸ htask)
    · intro x hx
      rcases List.mem_or_eq_of_mem_set hx with hx | rfl
      · exact hs.workers x (hworkers ▸ hx)
      · exact hwp'
    · have hbefore := hs.permits
      have hgiven : (w.answer o k p.2).rest.done.toNat = given o := by
        rw [← hover]
        simp [Task.answer, hreleases]
      rw [hundone, hworkers] at hcount
      simp only [held, holds, hcalled.task, hworkers] at hbefore ⊢
      cases hdone : (w.answer o k p.2).rest.done <;> simp [hdone] at hcount hgiven <;> omega

/-- The I/O thread enters a function, with no permit. -/
theorem Conserved.enter {task : Task} (hs : Conserved self s) (hnone : s.task = none)
    (htask : t.task = some task) (hworkers : t.workers = s.workers)
    (hpermits : t.permits = s.permits) (hfresh : task.past = [])
    (hwp : task.rest.wp permitRules (fun past _ => holding past = false) []) :
    Conserved self t where
  task := by
    intro task' h
    obtain rfl : task = task' := Option.some.inj (htask.symm.trans h)
    rw [hfresh]
    exact hwp
  workers := hworkers ▸ hs.workers
  permits := by
    have hbefore := hs.permits
    simpa [held, holds, hnone, htask, hworkers, hpermits, hfresh] using hbefore

theorem conserved_step {a : Action} (hs : Conserved self s) (ht : s.step self a = some t) :
    Conserved self t := by
  have hc := step_cases ht
  cases a with
  | loop a =>
    obtain ⟨loop, shut, -, rfl, -⟩ := hc
    exact ⟨hs.task, hs.workers, hs.permits⟩
  | deliver d =>
    obtain ⟨⟨-, hnone⟩, -, rfl⟩ := hc
    exact hs.enter hnone rfl rfl rfl rfl
      (Listener.wp_onMessage (fun _ _ _ => id) (offloadWrapper_permits self.listener rfl))
  | runScheduled j =>
    obtain ⟨f, -, ⟨-, hnone⟩, rfl⟩ := hc
    exact hs.enter hnone rfl rfl rfl rfl (schedule_permits f.schedule rfl)
  | runRequest raises =>
    obtain ⟨-, rfl⟩ := hc
    exact ⟨hs.task, hs.workers, hs.permits⟩
  | runTask answers => exact conserved_runTask hs hc
  | work i answers => exact conserved_work hs hc
  | leave =>
    obtain ⟨loop, exit, -, rfl⟩ := hc
    exact ⟨hs.task, hs.workers, hs.permits⟩

theorem conserved_of_reach {c : Offload → Action → Prop} (h : (machine self).Reach c s) :
    Conserved self s :=
  Machine.Path.invariant h (conserved_initial self) fun _ _ _ _ hs ht => conserved_step hs ht

/-! ## The callbacks finish on their own -/

/-- A submitted callback or its `_on_done` takes a step. -/
def onlyOffloaded (answers : ∀ o : Op, o.Ans) (_ : Offload) (a : Action) : Prop :=
  ∃ i, a = .work i answers

theorem Conserved.path {u : Offload} {c : Offload → Action → Prop} (hs : Conserved self s)
    (h : (machine self).Path c s u) : Conserved self u :=
  Machine.Path.invariant h hs fun _ _ _ _ hs ht => conserved_step hs ht

/-- Only `acquire`, `submit` and `add_done_callback` can wait, and neither a callback nor
`_on_done` calls them. -/
theorem call_isSome (self : Config) (s : Offload) (thread : Thread) (d : Delivery)
    (answers : ∀ o : Op, o.Ans) {past : List Call} {o : Op} (h : releaseRules.guard past o) :
    ∃ p, s.call self thread d answers o = some p := by
  rw [releaseRules_guard] at h
  cases o
  case acquire | submit | addDoneCallback => cases h
  case callback =>
    simp only [call]
    split <;> exact ⟨_, rfl⟩
  all_goals exact ⟨_, rfl⟩

theorem pool_sublist (s : Offload) : s.pool.Sublist s.workers := by
  unfold pool
  split
  · exact List.dropLast_sublist s.workers
  · exact List.Sublist.refl s.workers

/-- The pool has a thread for the worker. -/
def Free (config : Config) (s : Offload) (w : Task) : Prop :=
  w.past ≠ [] ∨ s.workers.countP Task.running < config.workers

theorem Free.room (h : Free self s w) :
    (w.past.isEmpty && decide (self.workers ≤ s.pool.countP Task.running)) = false := by
  rcases h with hne | hlt
  · simp [hne]
  · have hle := (pool_sublist s).countP_le (p := Task.running)
    simp [Nat.lt_of_le_of_lt hle hlt]

/-- With the first read of the connection behind it, a worker that has a thread makes
its next call. -/
theorem worker_calls (answers : ∀ o : Op, o.Ans) {o : Op} {k : o.Ans → Code Unit}
    (hs : Conserved self s) (hi : s.workers[i]? = some w) (hrest : w.rest = .call o k)
    (hfree : Free self s w)
    (honce : (readsTwice o && !w.connectionSet && s.loop.connection.isSome) = false) :
    ∃ t r, s.work self i answers = some t ∧ t.workers = s.workers.set i (w.answer o k r) ∧
      t.task = s.task := by
  have hwp := hs.workers w (List.mem_of_getElem? hi)
  rw [hrest] at hwp
  obtain ⟨p, hcall⟩ := call_isSome self s (s.threadOf i) w.delivery answers hwp.1
  obtain ⟨hcalled, hworkers, -⟩ := call_changes hcall
  have hspawned := (plain_of_guard self w.delivery p.2 hwp.1).2.1
  rw [hspawned, List.append_nil] at hworkers
  refine ⟨{ p.1 with workers := p.1.workers.set i (w.answer o k p.2) }, p.2, ?_, ?_, hcalled.task⟩
  · simp only [work, hi, Option.bind_some, hrest, hfree.room, honce, Bool.false_eq_true, if_false,
      hcall, Option.map_some]
  · rw [hworkers]

/-- A worker that has begun can always go on. -/
theorem running_steps (hs : Conserved self s) (hi : s.workers[i]? = some w)
    (hrun : w.running = true) (answers : ∀ o : Op, o.Ans) :
    ∃ t, s.step self (.work i answers) = some t := by
  simp only [Task.running, Bool.and_eq_true, Bool.not_eq_true', List.isEmpty_eq_false_iff] at hrun
  have hfree : Free self s w := .inl hrun.1
  cases hrest : w.rest with
  | pure a => rw [hrest] at hrun; cases hrun.2
  | raise x => rw [hrest] at hrun; cases hrun.2
  | call o k =>
    cases htwice : readsTwice o && !w.connectionSet && s.loop.connection.isSome with
    | false =>
      obtain ⟨t, r, ht, -⟩ := worker_calls answers hs hi hrest hfree htwice
      exact ⟨t, ht⟩
    | true =>
      simp only [step, work, hi, Option.bind_some, hrest, hfree.room, htwice,
        Bool.false_eq_true, if_false, if_true]
      exact ⟨_, rfl⟩

/-- A worker that has a thread makes its next call, in one step or two. -/
theorem worker_advances (answers : ∀ o : Op, o.Ans) {o : Op} {k : o.Ans → Code Unit}
    (hs : Conserved self s) (hi : s.workers[i]? = some w) (hrest : w.rest = .call o k)
    (hfree : Free self s w) : ∃ t r, (machine self).Path (onlyOffloaded answers) s t ∧
      t.workers = s.workers.set i (w.answer o k r) ∧ t.task = s.task := by
  cases htwice : readsTwice o && !w.connectionSet && s.loop.connection.isSome with
  | false =>
    obtain ⟨t, r, ht, hworkers, htask⟩ := worker_calls answers hs hi hrest hfree htwice
    exact ⟨t, r, (Machine.Path.refl s).snoc ⟨i, rfl⟩ ht, hworkers, htask⟩
  | true =>
    let x := { w with connectionSet := true }
    let u := { s with workers := s.workers.set i x }
    have hlt : i < s.workers.length := (List.getElem?_eq_some_iff.mp hi).1
    have hu : s.work self i answers = some u := by
      simp only [work, hi, Option.bind_some, hrest, hfree.room, htwice, Bool.false_eq_true,
        if_false, if_true]
      rw [← hrest]
    have hfree' : Free self u x := by
      refine hfree.imp_right fun h => ?_
      have hcount := countP_set_add (p := Task.running) (y := x) hi
      have hsame : x.running = w.running := rfl
      rw [hsame] at hcount
      have heq : u.workers.countP Task.running = s.workers.countP Task.running :=
        Nat.add_right_cancel hcount
      rwa [heq]
    obtain ⟨t, r, ht, hworkers, htask⟩ := worker_calls answers (conserved_work hs hu)
      (w := x) (List.getElem?_set_self hlt) hrest hfree' (by simp [x])
    refine ⟨t, r, ((Machine.Path.refl s).snoc ⟨i, rfl⟩ hu).snoc ⟨i, rfl⟩ ht, ?_, htask⟩
    rw [hworkers, List.set_set]
    rfl

theorem worker_finishes (answers : ∀ o : Op, o.Ans) (p : Code Unit) :
    ∀ (s : Offload) (w : Task), Conserved self s → s.workers[i]? = some w → w.rest = p →
      Free self s w → ∃ t x, (machine self).Path (onlyOffloaded answers) s t ∧
        t.workers = s.workers.set i x ∧ x.rest.done = true ∧ t.task = s.task := by
  have hover : ∀ {s : Offload} {w : Task}, s.workers[i]? = some w → w.rest.done = true →
      ∃ t x, (machine self).Path (onlyOffloaded answers) s t ∧
        t.workers = s.workers.set i x ∧ x.rest.done = true ∧ t.task = s.task := by
    intro s w hi hdone
    obtain ⟨hlt, rfl⟩ := List.getElem?_eq_some_iff.mp hi
    exact ⟨s, _, Machine.Path.refl s, (List.set_getElem_self hlt).symm, hdone, rfl⟩
  induction p with
  | pure a =>
    intro s w hs hi hrest hfree
    exact hover hi (by rw [hrest]; rfl)
  | raise e =>
    intro s w hs hi hrest hfree
    exact hover hi (by rw [hrest]; rfl)
  | call o k ih =>
    intro s w hs hi hrest hfree
    obtain ⟨t, r, ht, hworkers, htask⟩ := worker_advances answers hs hi hrest hfree
    have hi' : t.workers[i]? = some (w.answer o k r) := by
      rw [hworkers]
      exact List.getElem?_set_self (List.getElem?_eq_some_iff.mp hi).1
    obtain ⟨u, x, hu, hworkers', hdone, htask'⟩ :=
      ih r t (w.answer o k r) (hs.path ht) hi' rfl (.inl (by simp [Task.answer]))
    refine ⟨u, x, ht.trans hu, ?_, hdone, htask'.trans htask⟩
    rw [hworkers', hworkers, List.set_set]

theorem workers_pos (self : Config) : 0 < self.workers := by
  unfold Config.workers
  omega

/-- One of the workers that are not over has a thread. -/
theorem exists_free (self : Config) (hw : w ∈ s.workers) (hdone : w.rest.done = false) :
    ∃ (i : Nat) (x : Task), s.workers[i]? = some x ∧ x.rest.done = false ∧ Free self s x := by
  by_cases hrunning : ∃ x ∈ s.workers, x.running = true
  · obtain ⟨x, hx, hrun⟩ := hrunning
    obtain ⟨i, hi⟩ := List.mem_iff_getElem?.mp hx
    simp only [Task.running, Bool.and_eq_true, Bool.not_eq_true', List.isEmpty_eq_false_iff] at hrun
    exact ⟨i, x, hi, hrun.2, .inl hrun.1⟩
  · obtain ⟨i, hi⟩ := List.mem_iff_getElem?.mp hw
    have hzero : s.workers.countP Task.running = 0 :=
      List.countP_eq_zero.mpr fun x hx hrun => hrunning ⟨x, hx, hrun⟩
    exact ⟨i, w, hi, hdone, .inr (hzero ▸ workers_pos self)⟩

/-- **Nobody waits for the rest of the I/O thread**: all submitted callbacks and their
`_on_done` can finish while it does nothing else, whatever they do. -/
theorem workers_finish (answers : ∀ o : Op, o.Ans) (n : Nat) :
    ∀ s : Offload, Conserved self s → s.workers.countP (fun w => !w.rest.done) = n →
      ∃ t, (machine self).Path (onlyOffloaded answers) s t ∧
        t.workers.countP (fun w => !w.rest.done) = 0 ∧ t.task = s.task := by
  induction n with
  | zero => exact fun s _ hn => ⟨s, Machine.Path.refl s, hn, rfl⟩
  | succ n ih =>
    intro s hs hn
    have hpos : 0 < s.workers.countP (fun w => !w.rest.done) := by omega
    obtain ⟨w, hw, hdone⟩ := List.countP_pos_iff.mp hpos
    obtain ⟨i, x, hi, hx, hfree⟩ := exists_free self hw (by simpa using hdone)
    obtain ⟨t, y, ht, hworkers, hy, htask⟩ :=
      worker_finishes answers x.rest s x hs hi rfl hfree
    have hcount := countP_set_add (p := fun w : Task => !w.rest.done) (y := y) hi
    rw [← hworkers, hn, hx, hy] at hcount
    obtain ⟨u, hu, hzero, htask'⟩ := ih t (hs.path ht) (by simpa using hcount)
    exact ⟨u, ht.trans hu, hzero, htask'.trans htask⟩

/-- A step of a submitted callback, or of its `_on_done` on a worker. -/
def onlyPool (answers : ∀ o : Op, o.Ans) (s : Offload) (a : Action) : Prop :=
  ∃ i, a = .work i answers ∧ s.threadOf i = .worker i

/-- The I/O thread runs `_on_done` only inside `add_done_callback`. -/
theorem threadOf_eq (hadding : s.task.any Task.adding = false) (i : Nat) :
    s.threadOf i = .worker i := by
  have hlate : s.late = false := by rw [late, hadding, Bool.false_and]
  simp [threadOf, hlate]

/-- Outside `add_done_callback` the callbacks and their `_on_done` are the workers'. -/
theorem onlyPool_of_onlyOffloaded {answers : ∀ o : Op, o.Ans}
    (hadding : s.task.any Task.adding = false)
    (h : (machine self).Path (onlyOffloaded answers) s t) :
    (machine self).Path (onlyPool answers) s t ∧ t.task = s.task := by
  refine Machine.Path.invariant
    (P := fun t => (machine self).Path (onlyPool answers) s t ∧ t.task = s.task) h
    ⟨Machine.Path.refl s, rfl⟩ ?_
  rintro t a u ⟨i, rfl⟩ ⟨ht, htask⟩ hu
  have hthread : t.threadOf i = .worker i := threadOf_eq (htask ▸ hadding) i
  refine ⟨ht.snoc ⟨i, rfl, hthread⟩ hu, ?_⟩
  obtain ⟨w, o, k, -, -, rfl | ⟨p, hcall, rfl⟩⟩ := work_cases hu
  · exact htask
  · exact (call_changes hcall).1.task.trans htask

/-- All submitted callbacks end and give back their permits, by steps of their own. -/
theorem exists_returned_permits (hs : Conserved self s) (answers : ∀ o : Op, o.Ans) :
    ∃ t, (machine self).Path (onlyOffloaded answers) s t ∧ t.task = s.task ∧
      t.permits + t.holds.toNat = self.inFlight := by
  obtain ⟨t, ht, hzero, htask⟩ := workers_finish answers _ s hs rfl
  have hback := (hs.path ht).permits
  rw [held, hzero] at hback
  exact ⟨t, ht, htask, by omega⟩

/-- **The permits are conserved**: those that are left, one for each submitted callback
that has not released its own, and that of the delivery between `acquire` and `submit`
are `max(1, max_in_flight)`; each callback releases once, when it is over.  What has begun
can always go on, and all permits come back by steps of the callbacks and their
`_on_done` alone.  Unless the I/O thread is at `add_done_callback`, these are steps of the
workers. -/
theorem permits_conserved (hs : (machine self).Reach Machine.anyStep s) :
    s.permits + s.workers.countP (fun w => releases w.past == 0) + s.holds.toNat =
        self.inFlight ∧
      (∀ w ∈ s.workers, releases w.past = w.rest.done.toNat) ∧
      s.workers.countP (fun w => !w.rest.done) ≤ self.inFlight ∧
      (∀ (i : Nat) w, s.workers[i]? = some w → w.running = true →
        ∀ answers, ∃ t, s.step self (.work i answers) = some t) ∧
      (∀ answers, ∃ t, (machine self).Path (onlyOffloaded answers) s t ∧ t.task = s.task ∧
        t.permits + t.holds.toNat = self.inFlight) ∧
      (s.task.any Task.adding = false → ∀ answers, ∃ t,
        (machine self).Path (onlyPool answers) s t ∧ t.task = s.task ∧
          t.permits + t.holds.toNat = self.inFlight) := by
  have hconserved := conserved_of_reach hs
  have hreleases : ∀ w ∈ s.workers, releases w.past = w.rest.done.toNat :=
    fun w hw => releases_eq (hconserved.workers w hw)
  have hsum := hconserved.permits
  rw [held] at hsum
  refine ⟨?_, hreleases, by omega, fun _ _ hi hrun => running_steps hconserved hi hrun,
    exists_returned_permits hconserved, fun hadding answers => ?_⟩
  · have hsame : s.workers.countP (fun w => releases w.past == 0) =
        s.workers.countP (fun w => !w.rest.done) := by
      refine List.countP_congr fun w hw => ?_
      rw [hreleases w hw]
      cases w.rest.done <;> decide
    omega
  · obtain ⟨t, ht, hback⟩ := exists_returned_permits hconserved answers
    exact ⟨t, (onlyPool_of_onlyOffloaded hadding ht).1, hback⟩

/-- One worker, two permits, and acks. -/
def poolConfig : Config := ⟨ListenerLoop.defaultConfig, ⟨⟨[], false⟩, true⟩, some 1, some 2⟩

/-- The I/O thread connects and is in its first pump. -/
def firstPump : List Action := ListenerLoop.firstPump.map .loop

/-- A delivery on the first channel, and `n` calls of its wrapper; `submit` works. -/
def handOver (deliveryTag n : Nat) : List Action :=
  .deliver ⟨0, deliveryTag, none, [104]⟩ ::
    List.replicate n (.runTask (answering (.ok .value) (.ok ()) (.ok ())))

/-- `n` steps of the `i`-th worker, whose callback returns. -/
def works (i n : Nat) : List Action :=
  List.replicate n (.work i (answering (.ok .value) (.ok ()) (.ok ())))

def reached (as : List Action) : Offload :=
  ((machine poolConfig).runIn (fun _ _ => true) (initial poolConfig) as).getD (initial poolConfig)

theorem reached_reach {as : List Action} (h : ((machine poolConfig).runIn (fun _ _ => true)
    (initial poolConfig) as).isSome = true) :
    (machine poolConfig).Reach Machine.anyStep (reached as) :=
  (Machine.path_of_isSome h (initial poolConfig)).mono fun _ _ _ => trivial

/-- The first callback has returned and not released, the second delivery holds the
last permit, and `submit` is next. -/
def saturated : Offload := reached (firstPump ++ handOver 1 5 ++ works 0 1 ++ handOver 2 3)

theorem permits_conserved_saturated :
    saturated.permits = 0 ∧ saturated.holds = true ∧
      saturated.permits + saturated.workers.countP (fun w => releases w.past == 0) +
        saturated.holds.toNat = 2 :=
  ⟨by decide +kernel, by decide +kernel,
    (permits_conserved (reached_reach (by decide +kernel))).1⟩

/-- The step is not one of the I/O thread. -/
def aside (s : Offload) : Action → Prop
  | .work i _ => s.threadOf i ≠ .io
  | .leave => True
  | .loop a => match a with
    | .io _ _ _ => False
    | _ => True
  | _ => False

/-- The callback has returned before `add_done_callback`. -/
def outpaced : Offload := reached (firstPump ++ handOver 1 4 ++ works 0 1)

/-- **A release can wait for the I/O thread**: whatever the other threads do, the permit of
the callback that was faster than `add_done_callback` does not come back. -/
theorem release_waits : (machine poolConfig).Reach Machine.anyStep outpaced ∧
    ∀ t, (machine poolConfig).Path aside outpaced t → t.permits < poolConfig.inFlight := by
  have hpermits : outpaced.permits < poolConfig.inFlight := by decide +kernel
  have hlength : outpaced.workers.length = 1 := by decide +kernel
  have hthread : outpaced.threadOf 0 = .io := by decide +kernel
  refine ⟨reached_reach (by decide +kernel), fun t ht => ?_⟩
  suffices t.permits = outpaced.permits ∧ t.task = outpaced.task ∧
      t.workers = outpaced.workers from this.1 ▸ hpermits
  refine Machine.Path.invariant (P := fun t => t.permits = outpaced.permits ∧
    t.task = outpaced.task ∧ t.workers = outpaced.workers) ht ⟨rfl, rfl, rfl⟩ ?_
  rintro t a u ha ⟨hpermits, htask, hworkers⟩ hu
  have hc := step_cases hu
  cases a with
  | loop a =>
    obtain ⟨loop, shut, -, rfl, -⟩ := hc
    exact ⟨hpermits, htask, hworkers⟩
  | work i answers =>
    -- the only callback is the one that the I/O thread is to go on with
    obtain ⟨w, -, -, hi, -⟩ := work_cases hc
    have hzero : i = 0 := by
      have hlt := (List.getElem?_eq_some_iff.mp hi).1
      rw [hworkers, hlength] at hlt
      omega
    have hsame : t.threadOf i = outpaced.threadOf i := by
      unfold threadOf late
      rw [htask, hworkers]
    rw [hzero, hthread] at hsame
    exact absurd (hzero ▸ hsame) ha
  | leave =>
    obtain ⟨loop, exit, -, rfl⟩ := hc
    exact ⟨hpermits, htask, hworkers⟩
  | deliver | runScheduled | runRequest | runTask => exact ha.elim

end Offload

end MqAdapters
