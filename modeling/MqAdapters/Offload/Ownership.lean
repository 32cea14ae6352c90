import MqAdapters.Listener.Direct
import MqAdapters.Offload.Permits

/-!
# Who touches what is open

Only the I/O thread may call a method of an open connection or of an open channel,
except `add_callback_threadsafe`.  A worker and `stop_listening` act themselves when
they find no open connection.

* `foreignRules`: a worker acts on its channel itself only after it has found no open
  connection, or `add_callback_threadsafe` has raised.
* `Foreign`: then the channel is severed, since the only connection that can be open is
  the one in the field.  So no worker touches an open channel, in any run.
* `only_io_touches`: in runs that are `owned`, nobody but the I/O thread touches
  anything that is open; after a step that is not, `stop_listening` goes on to close the
  new connection itself (`owned_iff`).
-/

namespace MqAdapters

open Python Theory Code

namespace Offload

/-! ## When a worker acts itself -/

/-- The call has found no open connection. -/
def severs : Call → Bool
  | ⟨.connectionIsOpen, r⟩ => !r
  | ⟨.addCallbackThreadsafe _, r⟩ => match r with
    | .ok _ => false
    | .error _ => true
  | _ => false

/-- One of the calls has found no open connection. -/
def cut (past : List Call) : Bool := past.any severs

@[simp] theorem cut_nil : cut [] = false := rfl

@[simp] theorem cut_append (past past' : List Call) :
    cut (past ++ past') = (cut past || cut past') := List.any_append

@[simp] theorem cut_cons (e : Call) (past : List Call) : cut (e :: past) = (severs e || cut past) :=
  List.any_cons

/-- A worker calls no channel but its own, and that only if it has found no open
connection. -/
def foreignRules (ch : Nat) : Program.Rules Op Op.Ans Empty where
  allowed _ := True
  guard past o := ∀ k, target o = some k → k = ch ∧ cut past = true
  spawn _ := []
  pre _ _ := True

section

variable {self : Settings} {d : Delivery} {past : List Call} {ch : Nat}

@[simp] theorem foreignRules_allowed (e : Call) : (foreignRules ch).allowed e ↔ True := Iff.rfl

@[simp] theorem foreignRules_spawn (e : Call) : (foreignRules ch).spawn e = [] := rfl

@[simp] theorem foreignRules_guard (o : Op) :
    (foreignRules ch).guard past o ↔ ∀ k, target o = some k → k = ch ∧ cut past = true := Iff.rfl

theorem schedule_foreign {schedule : Schedule} {Q : List Call → Except Raised Unit → Prop}
    (h : cut past = true) (hQ : ∀ past r, cut past = true → Q past r) :
    (schedule.run d.channel d.properties d.body).wp (foreignRules d.channel) Q past := by
  refine Program.wp_mono (Q := fun past _ => cut past = true) hQ _ _ ?_
  cases schedule with
  | ack tag => simp [Schedule.run, ackOffloaded, target, h]
  | fail tag cfg attempt =>
    rcases hq : cfg.poisonQueue attempt with _ | q
    all_goals simp [Schedule.run, handleFail, hq, Program.wp_ite, target, h]

theorem onDone_foreign {exc : Option Raised} :
    (onDone self d.channel d.method d.properties d.body exc).wp (foreignRules d.channel)
      (fun _ _ => True) past := by
  rcases exc with _ | x
  all_goals simp [onDone, Delivery.method, Program.wp_ite, target]
  all_goals
    refine fun _ => ⟨schedule_foreign (by simp [severs]) ?_, schedule_foreign (by simp [severs]) ?_⟩
    · rintro past ((_ | _) | _) h
      · refine schedule_foreign h ?_
        rintro past ((_ | _) | _) - <;> trivial
      · trivial
      · trivial
    · rintro past ((_ | _) | _) - <;> trivial

/-- **A worker touches its channel itself only if the connection is gone.** -/
theorem offloaded_foreign : (offloaded self d.channel d.method d.properties d.body).wp
    (foreignRules d.channel) (fun _ _ => True) past := by
  simp [offloaded, target]
  refine ⟨⟨?_, ?_, ?_⟩, ?_, ?_⟩ <;> exact onDone_foreign

end

/-! ## Steps of the machine -/

variable {self : Config} {s t : Offload} {w : Task} {i : Nat}

/-- The I/O thread is in a function only in `process_data_events`, and the fields are
as `run` needs them. -/
structure Housed (s : Offload) : Prop where
  coherent : s.loop.Coherent
  inside : s.task.isSome = true → s.loop.pc = .pump
  bound : s.loop.Bound

theorem housed_initial (self : Config) : Housed (initial self) :=
  ⟨ListenerLoop.coherent_initial, nofun, nofun⟩

/-- Another thread, or a counter, changes the loop. -/
theorem Housed.quiet (hs : Housed s) (h : ListenerLoop.Quiet s.loop t.loop)
    (hages : ListenerLoop.Ages s.loop t.loop) (hpc : t.loop.pc = s.loop.pc)
    (hstop : s.loop.stopMe = true → t.loop.stopMe = true)
    (htask : t.task.isSome = true → t.loop.pc = .pump) : Housed t where
  coherent := hs.coherent.quiet h hpc hstop
  inside := htask
  bound := hages.bound (.inl h.connection) hs.bound

/-- A call leaves the fields alone. -/
theorem Called.housed (h : Called s t) (hs : Housed s) :
    Housed t ∧ ListenerLoop.Ages s.loop t.loop := by
  obtain ⟨stats, hloop⟩ := h.loop
  have hages : ListenerLoop.Ages s.loop t.loop := by
    rw [hloop]
    exact .same rfl rfl
  refine ⟨hs.quiet ?_ hages (by rw [hloop]) (fun hstop => by rw [hloop]; exact hstop) ?_, hages⟩
  · rw [hloop]
    exact .same rfl rfl rfl rfl
  · rw [h.task, hloop]
    exact hs.inside

theorem goOn_housed (task : Task) (hs : Housed s) (hpc : s.loop.pc = .pump) :
    Housed (s.goOn task) ∧ ListenerLoop.Ages s.loop (s.goOn task).loop := by
  unfold goOn
  split
  · exact ⟨⟨hs.coherent, nofun, hs.bound⟩, .same rfl rfl⟩
  · have hages := ListenerLoop.ages_pump (s := s.loop) false true
    exact ⟨⟨ListenerLoop.coherent_pump hs.coherent hpc false true, nofun,
      hages.bound (.inl rfl) hs.bound⟩, hages⟩
  all_goals exact ⟨⟨hs.coherent, fun _ => hpc, hs.bound⟩, .same rfl rfl⟩

theorem housed_step {a : Action} (hs : Housed s) (ht : s.step self a = some t) :
    Housed t ∧ ListenerLoop.Ages s.loop t.loop := by
  have hc := step_cases ht
  cases a with
  | loop a =>
    obtain ⟨loop, shut, hloop, rfl, hio⟩ := hc
    refine ⟨⟨ListenerLoop.coherent_step hs.coherent hloop, ?_,
      ListenerLoop.bound_step hs.bound hloop⟩, ListenerLoop.ages_step hloop⟩
    intro htask
    have hcases := ListenerLoop.step_cases hloop
    cases a with
    | io raises runs draw => simp [hio raises runs draw rfl] at htask
    | stop => exact (ListenerLoop.stop_shrinks hloop).2.1.trans (hs.inside htask)
    | callStop | tick =>
      obtain ⟨-, rfl⟩ := hcases
      exact hs.inside htask
    | lose | loseChannel => cases hloop; exact hs.inside htask
  | deliver d =>
    obtain ⟨⟨hpc, -⟩, -, rfl⟩ := hc
    exact ⟨⟨hs.coherent, fun _ => hpc, hs.bound⟩, .same rfl rfl⟩
  | runScheduled j =>
    obtain ⟨f, -, ⟨hpc, -⟩, rfl⟩ := hc
    exact ⟨⟨hs.coherent, fun _ => hpc, hs.bound⟩, .same rfl rfl⟩
  | runRequest raises =>
    obtain ⟨⟨hpc, -⟩, rfl⟩ := hc
    have hages := ListenerLoop.ages_runQueued (s := s.loop) raises
    have hsame := ListenerLoop.runQueued_pc (s := s.loop) raises
    refine ⟨hs.quiet (ListenerLoop.quiet_runQueued raises) hages hsame ?_ ?_, hages⟩
    · exact fun hstop => (ListenerLoop.runQueued_stopMe raises).trans hstop
    · exact fun _ => hsame.trans hpc
  | runTask answers =>
    obtain ⟨task, o, k, p, htask, -, hcall, rfl⟩ := runTask_cases hc
    have hcalled := (call_changes hcall).1
    obtain ⟨hp, hages⟩ := hcalled.housed hs
    have hpc : p.1.loop.pc = .pump := hp.inside (by rw [hcalled.task, htask]; rfl)
    obtain ⟨hhoused, hages'⟩ := goOn_housed (task.answer o k p.2) hp hpc
    exact ⟨hhoused, hages.trans hages'⟩
  | work i answers =>
    obtain ⟨w, o, k, -, -, rfl | ⟨p, hcall, rfl⟩⟩ := work_cases hc
    · exact ⟨⟨hs.coherent, hs.inside, hs.bound⟩, .same rfl rfl⟩
    · obtain ⟨hp, hages⟩ := (call_changes hcall).1.housed hs
      exact ⟨⟨hp.coherent, hp.inside, hp.bound⟩, hages⟩
  | leave =>
    obtain ⟨loop, exit, rfl | hstep, rfl⟩ := hc
    · exact ⟨⟨hs.coherent, hs.inside, hs.bound⟩, .same rfl rfl⟩
    · refine ⟨⟨ListenerLoop.coherent_step hs.coherent hstep, ?_,
        ListenerLoop.bound_step hs.bound hstep⟩, ListenerLoop.ages_step hstep⟩
      obtain ⟨-, rfl⟩ := ListenerLoop.step_cases hstep
      exact hs.inside

/-! ## The workers -/

/-- The worker keeps the rules, and once it has found no open connection, its channel
is severed. -/
structure Attached (loop : ListenerLoop) (w : Task) : Prop where
  known : loop.Known w.delivery.channel
  wp : w.rest.wp (foreignRules w.delivery.channel) (fun _ _ => True) w.past
  severed : cut w.past = true → loop.Severed w.delivery.channel

/-- No call of a worker has found its channel open. -/
structure Foreign (s : Offload) : Prop extends Housed s where
  task : ∀ task, s.task = some task → s.loop.Known task.delivery.channel
  scheduled : ∀ f ∈ s.scheduled, s.loop.Known f.delivery.channel
  workers : ∀ w ∈ s.workers, Attached s.loop w
  calls : ∀ e ∈ s.calls, e.thread ≠ .io → e.isOpen = false

theorem Attached.ages {loop loop' : ListenerLoop} (hw : Attached loop w)
    (h : ListenerLoop.Ages loop loop') : Attached loop' w :=
  ⟨h.known hw.known, hw.wp, fun hcut => h.severed (hw.severed hcut)⟩

/-- A callback that was just submitted. -/
theorem attached_submitted {loop : ListenerLoop} {d : Delivery} (hd : loop.Known d.channel) :
    Attached loop (submitted self d) :=
  ⟨hd, offloaded_foreign, nofun⟩

/-- A call that finds no open connection is right. -/
theorem call_severs {thread : Thread} {d : Delivery} {answers : ∀ o : Op, o.Ans} {o : Op}
    {p : Offload × o.Ans} (hs : s.loop.Coherent) (h : s.call self thread d answers o = some p)
    (hsevers : severs ⟨o, p.2⟩ = true) : s.loop.connections.AllClosed := by
  cases o
  case connectionIsOpen =>
    cases h
    have hclosed : s.loop.connected = false := by simpa [severs] using hsevers
    exact hs.only.allClosed hclosed
  case addCallbackThreadsafe schedule =>
    cases h
    unfold addCallback at hsevers
    cases hconn : s.loop.connection with
    | none => exact hs.only.allClosed (by rw [hconn]; rfl)
    | some c =>
      by_cases hopen : s.loop.connections.isOpen c = true
      · simp [hconn, hopen, severs] at hsevers
      · exact hs.only.allClosed (by simpa [hconn, Connections.usable] using hopen)
  all_goals cases hsevers

/-- The loop moves on, and the tasks stay. -/
theorem Foreign.ages (hs : Foreign s) (ht : Housed t)
    (h : ListenerLoop.Ages s.loop t.loop) (htask : t.task = s.task)
    (hscheduled : t.scheduled = s.scheduled) (hworkers : t.workers = s.workers)
    (hcalls : t.calls = s.calls) : Foreign t where
  toHoused := ht
  task task h' := h.known (hs.task task (htask ▸ h'))
  scheduled f hf := h.known (hs.scheduled f (hscheduled ▸ hf))
  workers w hw := (hs.workers w (hworkers ▸ hw)).ages h
  calls e he := hs.calls e (hcalls ▸ he)

/-- What a call of any thread leaves for the others. -/
theorem Foreign.called {thread : Thread} {d : Delivery} {answers : ∀ o : Op, o.Ans} {o : Op}
    {p : Offload × o.Ans} (hs : Foreign s) (hd : s.loop.Known d.channel)
    (h : s.call self thread d answers o = some p)
    (hthread : thread = .io ∨ ∀ k, target o = some k → s.loop.Severed k) :
    (∀ f ∈ p.1.scheduled, s.loop.Known f.delivery.channel) ∧
      (∀ w ∈ p.1.workers, Attached s.loop w) ∧
      ∀ e ∈ p.1.calls, e.thread ≠ .io → e.isOpen = false := by
  refine ⟨fun f hf => ?_, fun w hw => ?_, fun e he hforeign => ?_⟩
  · rcases call_scheduled h hf with hf | rfl
    · exact hs.scheduled f hf
    · exact hd
  · rw [(call_changes h).2.1] at hw
    rcases List.mem_append.mp hw with hw | hw
    · exact hs.workers w hw
    · rw [spawned_cases hw]
      exact attached_submitted hd
  · rcases call_logs h he with he | ⟨rfl, k, htarget, hopen⟩
    · exact hs.calls e he hforeign
    · rw [hopen]
      exact ((hthread.resolve_left hforeign) k htarget).not_open

theorem foreign_runTask {answers : ∀ o : Op, o.Ans} (hs : Foreign s) (hhoused : Housed t)
    (hages : ListenerLoop.Ages s.loop t.loop) (ht : s.runTask self answers = some t) :
    Foreign t := by
  obtain ⟨task, o, k, p, htask, -, hcall, rfl⟩ := runTask_cases ht
  have hknown := hs.task task htask
  obtain ⟨hscheduled, hworkers, hcalls⟩ := hs.called hknown hcall (.inl rfl)
  obtain ⟨hw, hf, hc, -⟩ := goOn_rest p.1 (task.answer o k p.2)
  refine ⟨hhoused, fun task' h => ?_, fun f h => ?_, fun w h => ?_, fun e h => ?_⟩
  · obtain rfl := goOn_task h
    exact hages.known hknown
  · exact hages.known (hscheduled f (hf ▸ h))
  · exact (hworkers w (hw ▸ h)).ages hages
  · exact hcalls e (hc ▸ h)

theorem foreign_work {answers : ∀ o : Op, o.Ans} (hs : Foreign s) (hhoused : Housed t)
    (hages : ListenerLoop.Ages s.loop t.loop) (ht : s.work self i answers = some t) :
    Foreign t := by
  obtain ⟨w, o, k, hi, hrest, rfl | ⟨p, hcall, rfl⟩⟩ := work_cases ht
  · have hw := hs.workers w (List.mem_of_getElem? hi)
    refine ⟨hhoused, hs.task, hs.scheduled, fun x hx => ?_, hs.calls⟩
    rcases List.mem_or_eq_of_mem_set hx with hx | rfl
    · exact hs.workers x hx
    · exact ⟨hw.known, hw.wp, hw.severed⟩
  · have hw := hs.workers w (List.mem_of_getElem? hi)
    have hwp := hw.wp
    rw [hrest] at hwp
    have hsevered : ∀ k, target o = some k → s.loop.Severed k := by
      intro k htarget
      obtain ⟨rfl, hcut⟩ := hwp.1 k htarget
      exact hw.severed hcut
    obtain ⟨hscheduled, hworkers, hcalls⟩ := hs.called hw.known hcall (.inr hsevered)
    refine ⟨hhoused, fun task h => ?_, fun f h => hages.known (hscheduled f h), fun x hx => ?_,
      hcalls⟩
    · exact hages.known (hs.task task ((call_changes hcall).1.task ▸ h))
    · rcases List.mem_or_eq_of_mem_set hx with hx | rfl
      · exact (hworkers x hx).ages hages
      · refine ⟨hages.known hw.known, (hwp.2 p.2 trivial).2, fun hcut => hages.severed ?_⟩
        -- cut before this call, or by it
        have hcut : cut w.past = true ∨ severs ⟨o, p.2⟩ = true := by
          simpa [Task.answer] using hcut
        rcases hcut with hcut | hcut
        · exact hw.severed hcut
        · exact hw.known.severed (call_severs hs.coherent hcall hcut)

theorem foreign_initial (self : Config) : Foreign (initial self) where
  toHoused := housed_initial self
  task _ h := by cases h
  scheduled _ h := absurd h List.not_mem_nil
  workers _ h := absurd h List.not_mem_nil
  calls _ h := absurd h List.not_mem_nil

theorem foreign_step {a : Action} (hs : Foreign s) (ht : s.step self a = some t) : Foreign t := by
  obtain ⟨hhoused, hages⟩ := housed_step hs.toHoused ht
  have hc := step_cases ht
  cases a with
  | loop a =>
    obtain ⟨loop, shut, -, rfl, -⟩ := hc
    exact hs.ages hhoused hages rfl rfl rfl rfl
  | deliver d =>
    obtain ⟨-, ⟨ch, hch, hconn⟩, rfl⟩ := hc
    refine ⟨hhoused, ?_, hs.scheduled, hs.workers, hs.calls⟩
    rintro task ⟨⟩
    exact ⟨ch, hch, hs.bound _ hconn⟩
  | runScheduled j =>
    obtain ⟨f, hf, -, rfl⟩ := hc
    refine ⟨hhoused, ?_, fun x hx => hs.scheduled x (List.mem_of_mem_eraseIdx hx), hs.workers,
      hs.calls⟩
    rintro task ⟨⟩
    exact hs.scheduled f (List.mem_of_getElem? hf)
  | runRequest raises =>
    obtain ⟨-, rfl⟩ := hc
    exact hs.ages hhoused hages rfl rfl rfl rfl
  | runTask answers => exact foreign_runTask hs hhoused hages hc
  | work i answers => exact foreign_work hs hhoused hages hc
  | leave =>
    obtain ⟨loop, exit, -, rfl⟩ := hc
    exact hs.ages hhoused hages rfl rfl rfl rfl

theorem foreign_of_reach {c : Offload → Action → Prop} (h : (machine self).Reach c s) : Foreign s :=
  Machine.Path.invariant h (foreign_initial self) fun _ _ _ _ hs ht => foreign_step hs ht

/-! ## The thread that stops -/

/-- The factory returns no connection while `stop_listening` acts itself. -/
def owned (s : Offload) : Action → Bool
  | .loop a => s.loop.owned a
  | _ => true

theorem Called.aside (h : Called s t) (ha : s.loop.Aside) : t.loop.Aside := by
  obtain ⟨stats, hloop⟩ := h.loop
  rw [hloop]
  exact ha.shrinks (.same rfl rfl) rfl rfl

theorem goOn_aside {task : Task} (ha : s.loop.Aside) : (s.goOn task).loop.Aside := by
  unfold goOn
  split
  · exact ha
  · exact ha.shrinks (.same rfl rfl) rfl rfl
  · exact ha
  · exact ha

theorem aside_step {a : Action} (hs : Housed s) (ha : s.loop.Aside) (howned : owned s a = true)
    (ht : s.step self a = some t) : t.loop.Aside := by
  have hc := step_cases ht
  cases a with
  | loop a =>
    obtain ⟨loop, shut, hloop, rfl, -⟩ := hc
    exact ListenerLoop.aside_step hs.coherent ha howned hloop
  | deliver d =>
    obtain ⟨-, -, rfl⟩ := hc
    exact ha
  | runScheduled j =>
    obtain ⟨f, -, -, rfl⟩ := hc
    exact ha
  | runRequest raises =>
    obtain ⟨-, rfl⟩ := hc
    obtain ⟨hstopping, hdirect⟩ := ListenerLoop.runQueued_leaves (s := s.loop) raises
    exact ha.shrinks (ListenerLoop.shrinks_runQueued raises) hstopping hdirect
  | runTask answers =>
    obtain ⟨task, o, k, p, -, -, hcall, rfl⟩ := runTask_cases hc
    exact goOn_aside ((call_changes hcall).1.aside ha)
  | work i answers =>
    obtain ⟨w, o, k, -, -, rfl | ⟨p, hcall, rfl⟩⟩ := work_cases hc
    · exact ha
    · exact (call_changes hcall).1.aside ha
  | leave =>
    obtain ⟨loop, exit, rfl | hstep, rfl⟩ := hc
    · exact ha
    · exact ListenerLoop.aside_step hs.coherent ha rfl hstep

theorem aside_of_reach (hs : (machine self).Reach (fun s a => owned s a = true) s) :
    s.loop.Aside := by
  refine Machine.Reach.invariant (P := fun s => s.loop.Aside) hs ListenerLoop.aside_initial ?_
  intro s a t hr hc ha ht
  exact aside_step (foreign_of_reach hr).toHoused ha hc ht

/-- Only `stop_listening` takes a step. -/
def onlyStop (_ : Offload) (a : Action) : Prop := a = .loop .stop

/-- What `stop_listening` does in the loop alone it does here. -/
theorem stop_path (self : Config) {u : ListenerLoop}
    (h : (ListenerLoop.machine self.loop).Path ListenerLoop.onlyStop s.loop u) :
    ∃ t, (machine self).Path onlyStop s t ∧ t.loop = u := by
  refine Machine.Path.invariant (P := fun u => ∃ t, (machine self).Path onlyStop s t ∧ t.loop = u) h
    ⟨s, Machine.Path.refl s, rfl⟩ ?_
  rintro u a v rfl ⟨t, ht, rfl⟩ hv
  refine ⟨_, ht.snoc (a := .loop .stop) rfl (Option.map_eq_some_iff.mpr ⟨v, hv, rfl⟩), rfl⟩

/-- **A step is `owned` if and only if** `stop_listening` does not go on from there to
close an open connection itself. -/
theorem owned_iff {a : Action} (hs : (machine self).Reach (fun s a => owned s a = true) s)
    (h : s.step self a = some t) : owned s a = true ↔
      ∀ u, (machine self).Path onlyStop t u → ∀ p ∈ u.loop.direct, p.2 = false := by
  constructor
  · intro hc u hu
    have hpath : (machine self).Path (fun s a => owned s a = true) t u :=
      hu.mono fun s a ha => by rw [ha]; rfl
    exact (aside_of_reach (Machine.Path.trans (hs.snoc hc h) hpath)).calls
  · intro hall
    by_contra hc
    rw [Bool.not_eq_true] at hc
    cases a with
    | loop a =>
      obtain ⟨loop, shut, hloop, rfl, -⟩ := step_cases h
      obtain ⟨u, hu, -, hcall⟩ := ListenerLoop.closes_of_not_owned hloop hc
      obtain ⟨t, ht, rfl⟩ := stop_path self (s := { s with loop := loop, shut := shut }) hu
      exact absurd (hall t ht _ hcall) (by simp)
    | deliver | runScheduled | runRequest | runTask | work | leave => cases hc

/-- **Only the I/O thread touches what is open**, however its steps interleave with
those of the workers and of `stop_listening`, when every step is `owned`: no call of a
worker found its channel open, and no call of `stop_listening` its channel or
connection.  The first step that is not `owned` lets `stop_listening` go on to close an
open connection. -/
theorem only_io_touches (hs : (machine self).Reach (fun s a => owned s a = true) s) :
    ((∀ e ∈ s.calls, e.thread ≠ .io → e.isOpen = false) ∧ ∀ p ∈ s.loop.direct, p.2 = false) ∧
      ∀ a t, s.step self a = some t → (owned s a = true ↔
        ∀ u, (machine self).Path onlyStop t u → ∀ p ∈ u.loop.direct, p.2 = false) :=
  ⟨⟨(foreign_of_reach hs).calls, (aside_of_reach hs).calls⟩, fun _ _ ht => owned_iff hs ht⟩

/-- The connection is lost under a worker, which then acks itself, and
`stop_listening` finds nothing to close. -/
def cutOff : Offload :=
  ((machine poolConfig).runIn owned (initial poolConfig)
    (firstPump ++ handOver 1 5 ++ [.loop (.lose 0)] ++ works 0 4 ++
      .loop .callStop :: List.replicate 7 (.loop .stop))).getD (initial poolConfig)

theorem cutOff_reach : (machine poolConfig).Reach (fun s a => owned s a = true) cutOff :=
  Machine.path_of_isSome (by decide +kernel) (initial poolConfig)

theorem only_io_touches_cutOff :
    cutOff.calls.map (fun e => (e.thread, e.isOpen)) = [(.worker 0, false)] ∧
      (∀ e ∈ cutOff.calls, e.thread ≠ .io → e.isOpen = false) ∧
      ∀ p ∈ cutOff.loop.direct, p.2 = false :=
  ⟨by decide +kernel, (only_io_touches cutOff_reach).1⟩

/-- `stop_listening` finds no connection, as the factory is at work, and is at its last
test when that returns one. -/
def overtaken : Offload :=
  reached (List.replicate 4 (.loop (.io false false 0)) ++
    .loop .callStop :: List.replicate 4 (.loop .stop) ++
    .loop (.io false false 0) :: List.replicate 3 (.loop .stop))

/-- `run` goes on with the connection that `stop_listening` has closed. -/
theorem stop_closes_open : (machine poolConfig).Reach Machine.anyStep overtaken ∧
    overtaken.loop.pc = .checkChannel ∧
    overtaken.loop.direct = [(.closeConnection, true)] :=
  ⟨reached_reach (by decide +kernel), by decide +kernel, by decide +kernel⟩

end Offload

end MqAdapters
