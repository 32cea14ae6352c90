import MqAdapters.Listener.Direct
import MqAdapters.Offload.Permits

/-!
# What leaving the `with` block settles

`__exit__` stops the listener and waits for the workers.  A callback that has returned
is acked on the I/O thread, by a function that `_on_done` schedules.  So the ack needs
a channel that is still open, and a later `process_data_events`; but the request to
close does not wait for the workers, and `__exit__` does not wait for the I/O thread,
which may even have the `_on_done` of a fast callback before it.

* `ackRules`, `offloaded_acks`: a task hands the delivery over once its callback has
  returned, by the ack or by leaving that to the I/O thread.
* `settling`: no step comes between a returned callback and its ack.
* `Drains`: then each completed delivery is acked, or its channel is open and the ack
  is pending with its `_on_done`, with a scheduled function or in the I/O thread.
* `exit_settles`: so all are acked when `__exit__` returns.
* `exit_loses_ack`: a callback that returns after the request has run is not.
-/

namespace MqAdapters

open Python Theory Code

namespace ListenerLoop

variable {self : Config} {s t : ListenerLoop} {k : Nat}

/-! ## What closes a channel -/

/-- The step closes a channel or a connection, if that is open. -/
def closes (s : ListenerLoop) : Action → Bool
  | .io _ runs _ => match s.pc with
    | .pump => runs && s.requested
    | .closeChannel _ => s.consuming
    | .closeConnection _ => s.connected
    | _ => false
  | .stop => match s.stopping with
    | .closeChannel => s.consuming
    | .closeConnection => s.connected
    | _ => false
  | .lose _ | .loseChannel _ => true
  | .callStop | .tick _ => false

/-- The channels that are open stay open. -/
def Keeps (s t : ListenerLoop) : Prop := ∀ k, s.channelOpen k = true → t.channelOpen k = true

theorem channelOpen_iff : s.channelOpen k = true ↔ ∃ ch, s.channels[k]? = some ch ∧
    ch.isOpen = true ∧ s.connections.isOpen ch.connection = true := by
  simp [channelOpen, Option.any_eq_true]

theorem Keeps.of (hcs : ∀ c, s.connections.isOpen c = true → t.connections.isOpen c = true)
    (hks : ∀ (k : Nat) (ch : ListenerChannel), s.channels[k]? = some ch → ∃ ch' : ListenerChannel,
      t.channels[k]? = some ch' ∧ ch'.isOpen = ch.isOpen ∧ ch'.connection = ch.connection) :
    Keeps s t := by
  intro k hk
  obtain ⟨ch, hch, hopen, hconn⟩ := channelOpen_iff.mp hk
  obtain ⟨ch', hch', hopen', hconn'⟩ := hks k ch hch
  exact channelOpen_iff.mpr ⟨ch', hch', hopen'.trans hopen, hconn' ▸ hcs _ hconn⟩

theorem Keeps.same (hcs : t.connections = s.connections) (hks : t.channels = s.channels) :
    Keeps s t :=
  .of (fun _ hc => hcs ▸ hc) fun _ ch hch => ⟨ch, hks ▸ hch, rfl, rfl⟩

theorem runQueued_of_not_requested (h : s.requested = false) (raises : Bool) :
    s.runQueued raises = s := by
  unfold runQueued
  unfold requested at h
  cases hconn : s.connection with
  | none => rfl
  | some c =>
    rw [hconn] at h
    exact if_neg (by simpa using h)

theorem keeps_io {raises runs : Bool} {draw : ℚ} (hc : s.closes (.io raises runs draw) = false)
    (h : s.io self raises runs draw = some t) : Keeps s t := by
  rcases io_moves h with hidle | ⟨attempt, -, -, rfl⟩ | ⟨c, -, rfl⟩ | rfl | ⟨hpc, rfl⟩ |
    ⟨level, hpc, rfl⟩ | ⟨level, hpc, rfl⟩ | ⟨level, rfl⟩ | ⟨level, rfl⟩
  · exact .same hidle.connections hidle.channels
  · exact .of (fun _ hc => Connections.isOpen_connect.mpr (.inl hc))
      fun _ ch hch => ⟨ch, hch, rfl, rfl⟩
  · exact .of (fun _ hc => hc) fun _ ch hch => ⟨ch, getElem?_concat_of_some hch, rfl, rfl⟩
  · exact .of (fun _ hc => hc) fun _ _ hch => setup_channels hch
  · simp only [closes, hpc] at hc
    have hqueued : (if runs then s.runQueued raises else s) = s := by
      cases runs
      · rfl
      · exact runQueued_of_not_requested (by simpa using hc) raises
    unfold pump
    dsimp only
    rw [hqueued]
    split <;> exact .same rfl rfl
  · simp only [closes, hpc] at hc
    have hdrop : s.dropChannel = s := if_neg (by simp [hc])
    rw [hdrop]
    exact .same rfl rfl
  · simp only [closes, hpc] at hc
    have hdrop : s.dropConnection raises = s := by
      unfold dropConnection
      cases hconn : s.connection with
      | none => rfl
      | some c => exact if_neg (by simpa [connected, hconn, Connections.usable] using hc)
    rw [hdrop]
    exact .same rfl rfl
  · exact .same rfl rfl
  · exact .same rfl rfl

theorem keeps_stop (hc : s.closes .stop = false) (h : s.stop = some t) : Keeps s t := by
  rcases stop_cases h with ⟨_, _, _, rfl⟩ | ⟨-, rfl⟩ | ⟨_, hst, rfl⟩ | ⟨c, _, hst, hconn, rfl⟩
  · exact .same rfl rfl
  · exact .same rfl rfl
  · simp only [closes, hst] at hc
    intro k hk
    cases hfield : s.channel with
    | none => exact hk
    | some j =>
      have hne : j ≠ k := by
        rintro rfl
        rw [consuming, hfield] at hc
        exact absurd hk (by simpa using hc)
      simpa [channelOpen, shutChannel, hne] using hk
  · simp only [closes, hst] at hc
    have hclosed : s.connections.isOpen c = false := by
      simpa [connected, hconn, Connections.usable] using hc
    refine .of (fun d hd => Connections.isOpen_close.mpr ⟨hd, ?_⟩)
      fun _ ch hch => ⟨ch, hch, rfl, rfl⟩
    rintro rfl
    exact absurd hd (by simp [hclosed])

theorem keeps_step {a : Action} (hc : s.closes a = false) (h : s.step self a = some t) :
    Keeps s t := by
  have hcases := step_cases h
  cases a with
  | io raises runs draw => exact keeps_io hc h
  | callStop | tick =>
    obtain ⟨-, rfl⟩ := hcases
    exact .same rfl rfl
  | stop => exact keeps_stop hc h
  | lose | loseChannel => cases hc

end ListenerLoop

namespace Offload

/-! ## What a returned callback is owed -/

/-- `_ack` of the delivery. -/
def acks (d : Delivery) : Schedule → Bool
  | .ack deliveryTag => deliveryTag == d.deliveryTag
  | .fail _ _ _ => false

/-- The call is the ack of the delivery, or leaves it to the I/O thread. -/
def hands (d : Delivery) : Call → Bool
  | ⟨.basicAck ch deliveryTag, _⟩ => ch == d.channel && deliveryTag == d.deliveryTag
  | ⟨.addCallbackThreadsafe schedule, r⟩ => acks d schedule && match r with
    | .ok _ => true
    | .error _ => false
  | _ => false

/-- One of the calls is the ack, or left it to the I/O thread. -/
def handed (d : Delivery) (past : List Call) : Bool := past.any (hands d)

/-- The callback returns normally. -/
def returns : Call → Bool
  | ⟨.callback _ _, r⟩ => match r with
    | .ok _ => true
    | .error _ => false
  | _ => false

/-- The callback has returned normally. -/
def returned (past : List Call) : Bool := past.any returns

/-- `add_callback_threadsafe` raises no `BaseException`. -/
def caught : Call → Prop
  | ⟨.addCallbackThreadsafe _, r⟩ => r ≠ .error .baseException
  | _ => True

/-- The callback runs before the ack. -/
def ackRules (d : Delivery) : Program.Rules Op Op.Ans Empty where
  allowed := caught
  guard past
    | .callback _ _ => handed d past = false
    | _ => True
  spawn _ := []
  pre _ _ := True

section

variable {d : Delivery} {past : List Call} {self : Settings}

@[simp] theorem handed_append (past past' : List Call) :
    handed d (past ++ past') = (handed d past || handed d past') := List.any_append

@[simp] theorem handed_nil : handed d [] = false := rfl

@[simp] theorem handed_cons (e : Call) (past : List Call) :
    handed d (e :: past) = (hands d e || handed d past) := List.any_cons

@[simp] theorem returned_append (past past' : List Call) :
    returned (past ++ past') = (returned past || returned past') := List.any_append

@[simp] theorem returned_nil : returned [] = false := rfl

@[simp] theorem returned_cons (e : Call) (past : List Call) :
    returned (e :: past) = (returns e || returned past) := List.any_cons

@[simp] theorem ackRules_allowed (e : Call) : (ackRules d).allowed e ↔ caught e := Iff.rfl

@[simp] theorem ackRules_spawn (e : Call) : (ackRules d).spawn e = [] := rfl

@[simp] theorem ackRules_guard (o : Op) : (ackRules d).guard past o ↔ match o with
    | .callback _ _ => handed d past = false
    | _ => True := by
  cases o <;> rfl

/-- The delivery is handed over if its callback has returned. -/
def Owed (d : Delivery) (past : List Call) : Prop := returned past = true → handed d past = true

theorem Owed.of_unreturned (h : returned past = false) : Owed d past :=
  fun hr => absurd hr (by simp [h])

theorem Owed.snoc {e : Call} (h : Owed d past) (he : returns e = false) : Owed d (past ++ [e]) := by
  intro hr
  rw [handed_append, h (by simpa [he] using hr)]
  rfl

/-- No scheduled function runs the callback. -/
theorem schedule_unreturned {schedule : Schedule} {Q : List Call → Except Raised Unit → Prop}
    (h : returned past = false) (hQ : ∀ past r, returned past = false → Q past r) :
    (schedule.run d.channel d.properties d.body).wp (ackRules d) Q past := by
  refine Program.wp_mono (Q := fun past _ => returned past = false) hQ _ _ ?_
  cases schedule with
  | ack tag => simp [Schedule.run, ackOffloaded, returns, caught, h]
  | fail tag cfg attempt =>
    rcases hq : cfg.poisonQueue attempt with _ | q
    all_goals simp [Schedule.run, handleFail, hq, Program.wp_ite, returns, caught, h]

theorem ack_hands {Q : List Call → Except Raised Unit → Prop}
    (hQ : ∀ past r, handed d past = true → Q past r) :
    ((Schedule.ack d.deliveryTag).run d.channel d.properties d.body).wp (ackRules d) Q past := by
  refine Program.wp_mono (Q := fun past _ => handed d past = true) hQ _ _ ?_
  simp [Schedule.run, ackOffloaded, hands, caught]

theorem internalWrapper_acks (hack : self.autoAck = false) (hr : returned past = false)
    (hh : handed d past = false) :
    (internalWrapper self d.channel d.method d.properties d.body).wp (ackRules d)
      (fun past _ => Owed d past) past := by
  simp [internalWrapper, Program.wp_ite, hack, Delivery.method, Owed, returns, caught, hands, hr,
    hh]

theorem offloadWrapper_acks {self : Listener} (hack : self.autoAck = false)
    (hr : returned past = false) (hh : handed d past = false) :
    (offloadWrapper self d.channel d.method d.properties d.body).wp (ackRules d)
      (fun past _ => Owed d past) past := by
  simp [offloadWrapper, Program.wp_ite, caught]
  refine ⟨fun _ => internalWrapper_acks hack hr hh,
    fun _ => ⟨⟨⟨?_, ⟨?_, ?_, ?_⟩, ?_⟩, ?_, ?_⟩, ?_⟩⟩
  -- the direct call, or the end of the wrapper
  all_goals first
    | exact internalWrapper_acks hack (by simp [returns, hr]) (by simp [hands, hh])
    | exact .of_unreturned (by simp [returns, hr])
    | exact ⟨.of_unreturned (by simp [returns, hr]), .of_unreturned (by simp [returns, hr])⟩

/-- `_on_done` hands over the delivery of a callback that has returned. -/
theorem onDone_acks (hack : self.autoAck = false) {exc : Option Raised}
    (hr : exc.isSome = true → returned past = false) :
    (onDone self d.channel d.method d.properties d.body exc).wp (ackRules d)
      (fun past _ => Owed d past) past := by
  unfold onDone
  rw [Program.wp_ensure]
  refine Program.wp_mono (Q := fun past _ => Owed d past) (fun past r h => ?_) _ _ ?_
  · simp [caught]
    exact ⟨h.snoc rfl, h.snoc rfl, h.snoc rfl⟩
  · rcases exc with _ | x
    · have hdone : ∀ past, handed d past = true → Owed d past := fun _ h _ => h
      simp [Program.wp_ite, hack, Delivery.method, Schedule.of, caught]
      refine ⟨ack_hands ?_, hdone _ (by simp [hands, acks]), ack_hands ?_⟩
      · rintro past ((_ | _) | _) h
        · refine ack_hands ?_
          rintro past ((_ | _) | _) h <;> exact hdone _ h
        · exact hdone _ h
        · exact hdone _ h
      · rintro past ((_ | _) | _) h <;> exact hdone _ h
    · have hr : returned past = false := hr rfl
      simp [Program.wp_ite, hack, Delivery.method, Schedule.of, caught]
      refine ⟨schedule_unreturned (by simp [returns, hr]) ?_,
        .of_unreturned (by simp [returns, hr]), schedule_unreturned (by simp [returns, hr]) ?_⟩
      · rintro past ((_ | _) | _) h
        · refine schedule_unreturned h ?_
          rintro past ((_ | _) | _) h <;> exact .of_unreturned h
        · exact .of_unreturned h
        · exact .of_unreturned h
      · rintro past ((_ | _) | _) h <;> exact .of_unreturned h

/-- **A callback that has returned is handed over by its `_on_done`.** -/
theorem offloaded_acks (hack : self.autoAck = false) (hr : returned past = false)
    (hh : handed d past = false) :
    (offloaded self d.channel d.method d.properties d.body).wp (ackRules d)
      (fun past _ => Owed d past) past := by
  simp [offloaded, caught, hh]
  refine ⟨⟨?_, ?_, ?_⟩, ?_, ?_⟩
  all_goals exact onDone_acks hack (by simp [returns, hr])

end

/-! ## The acks that are pending -/

def isAck (d : Delivery) : Op → Bool
  | .basicAck ch deliveryTag => ch == d.channel && deliveryTag == d.deliveryTag
  | _ => false

namespace Task

def next (task : Task) : Option Op :=
  match task.rest with
  | .call o _ => some o
  | .pure _ => none
  | .raise _ => none

/-- The callback has returned and is not handed over, or this is `_ack`. -/
def owes (task : Task) : Bool :=
  !handed task.delivery task.past &&
    (returned task.past || task.past.isEmpty && task.next.any (isAck task.delivery))

end Task

/-- An `_ack` waits in its connection for the next `process_data_events`. -/
def queued (s : Offload) : Bool := s.scheduled.any fun f => acks f.delivery f.schedule

/-- The I/O thread is in `_ack`, or between the callback and the ack of a direct call. -/
def midAck (s : Offload) : Bool := s.task.any Task.owes

/-- The callback that was submitted last has returned before `add_done_callback`, and the
I/O thread has yet to run its `_on_done`. -/
def belated (s : Offload) : Bool := s.late && s.workers.getLast?.any Task.owes

/-- The I/O thread lags behind the workers. -/
def lags (s : Offload) : Bool := s.queued || s.midAck || s.belated

/-- An ack is left to the I/O thread, or will be. -/
def owing (s : Offload) : Bool := s.workers.any Task.owes || s.lags

/-- A call on an open channel does not raise. -/
def serves (answers : ∀ o : Op, o.Ans) : Op → Bool
  | .basicAck ch deliveryTag => (answers (.basicAck ch deliveryTag)).isOk
  | .basicNack ch deliveryTag requeue => (answers (.basicNack ch deliveryTag requeue)).isOk
  | .basicPublish ch exchange routingKey body properties =>
    (answers (.basicPublish ch exchange routingKey body properties)).isOk
  | _ => true

/-- The callback returns normally. -/
def returning (answers : ∀ o : Op, o.Ans) : Op → Bool
  | .callback properties body => (answers (.callback properties body)).isOk
  | _ => false

/-- The connection is lost by nobody but the listener, and serves it as long as it is
open. -/
def healthy (s : Offload) : Action → Bool
  | .loop (.lose _) | .loop (.loseChannel _) => false
  | .loop (.io raises _ _) => !(raises && s.loop.connected)
  | .runRequest raises => !raises
  | .runTask answers => s.task.all fun task => task.next.all (serves answers)
  | .work i answers => (s.workers[i]?).all fun w => w.next.all (serves answers)
  | _ => true

/-- If the next call is the callback and that returns, the channel is open. -/
def inTime (s : Offload) (answers : ∀ o : Op, o.Ans) (task : Task) : Bool :=
  !task.next.any (returning answers) || s.loop.channelOpen task.delivery.channel

/-- No ack comes too late after this step: nothing is closed while one is pending, no
callback returns once its channel is closed, and `__exit__`, which waits for the pool
only, does not return while the I/O thread lags behind. -/
def settling (s : Offload) : Action → Bool
  | .loop a => !s.owing || !s.loop.closes a
  | .runRequest _ => !s.owing || !s.loop.requested
  | .runTask answers => s.task.all (s.inTime answers)
  | .work i answers => (s.workers[i]?).all (s.inTime answers)
  | .leave => s.exit != .waiting || !s.lags
  | .deliver _ | .runScheduled _ => true

/-- The delivery was acked on its channel while that was open. -/
def Acked (s : Offload) (d : Delivery) : Prop :=
  ∃ e ∈ s.calls, e.op = .basicAck d.channel d.deliveryTag ∧ e.isOpen = true ∧ e.answer = .ok ()

/-- The ack of the delivery is scheduled. -/
def Left (s : Offload) (d : Delivery) : Prop :=
  ∃ f ∈ s.scheduled, f.delivery = d ∧ acks d f.schedule = true

/-- Somebody has yet to ack the delivery. -/
def Pending (s : Offload) (d : Delivery) : Prop :=
  (∃ w ∈ s.workers, w.delivery = d ∧ w.owes = true) ∨ s.Left d ∨
    ∃ task, s.task = some task ∧ task.delivery = d ∧ task.owes = true

/-- The delivery is acked, or its channel is open and its ack is pending. -/
def Secured (s : Offload) (d : Delivery) : Prop :=
  s.Acked d ∨ s.loop.channelOpen d.channel = true ∧ s.Pending d

/-- The task hands the delivery over once its callback has returned. -/
def Task.Pays (task : Task) : Prop :=
  task.rest.wp (ackRules task.delivery) (fun past _ => Owed task.delivery past) task.past

/-- No completed delivery has lost its ack. -/
structure Drains (s : Offload) : Prop where
  task : ∀ task, s.task = some task → task.Pays
  workers : ∀ w ∈ s.workers, w.Pays
  completed : ∀ d ∈ s.completed, s.Secured d

variable {self : Config} {s t : Offload} {d : Delivery} {w task : Task} {i : Nat}

theorem Pending.owing (h : s.Pending d) : s.owing = true := by
  unfold Offload.owing lags queued midAck
  rcases h with ⟨w, hw, -, howes⟩ | ⟨f, hf, rfl, hacks⟩ | ⟨task, htask, -, howes⟩
  · rw [List.any_eq_true.mpr ⟨w, hw, howes⟩]
    rfl
  · rw [List.any_eq_true.mpr ⟨f, hf, hacks⟩]
    simp
  · simp [htask, howes]

/-- What is not with the pool is the callback that was submitted last. -/
theorem mem_pool (hw : w ∈ s.workers) :
    w ∈ s.pool ∨ s.late = true ∧ s.workers.getLast? = some w := by
  unfold pool
  split
  · next hlate =>
    have hne : s.workers ≠ [] := List.ne_nil_of_mem hw
    rw [← List.dropLast_concat_getLast hne] at hw
    refine (List.mem_append.mp hw).imp_right fun hw => ⟨hlate, ?_⟩
    rw [List.mem_singleton.mp hw, List.getLast?_eq_some_getLast hne]
  · exact .inl hw

/-! ## One call -/

section

variable {thread : Thread} {answers : ∀ o : Op, o.Ans} {o : Op} {k : o.Ans → Code Unit} {r : o.Ans}
  {p : Offload × o.Ans}

theorem hands_of_isAck (h : isAck d o = true) : hands d ⟨o, r⟩ = true := by
  cases o
  case basicAck => exact h
  all_goals cases h

theorem not_hands_of_returns (h : returns ⟨o, r⟩ = true) : hands d ⟨o, r⟩ = false := by
  cases o
  case callback => rfl
  all_goals cases h

theorem Task.Pays.answer (hp : task.Pays) (hrest : task.rest = .call o k) (hc : caught ⟨o, r⟩) :
    (task.answer o k r).Pays := by
  unfold Pays at hp
  rw [hrest] at hp
  exact (hp.2 r hc).2

/-- A callback that returns owes the ack. -/
theorem Task.Pays.returns (hp : task.Pays) (hrest : task.rest = .call o k)
    (hr : returns ⟨o, r⟩ = true) : (task.answer o k r).owes = true := by
  unfold Pays at hp
  rw [hrest] at hp
  have hguard := hp.1
  have hh : handed task.delivery task.past = false := by
    cases o
    case callback => exact hguard
    all_goals cases hr
  simp [Task.owes, Task.answer, hh, hr, not_hands_of_returns hr]

/-- What is owed is handed over by the next call, or still owed. -/
theorem Task.owes_answer (ho : task.owes = true) (hrest : task.rest = .call o k) :
    hands task.delivery ⟨o, r⟩ = true ∨ (task.answer o k r).owes = true := by
  simp only [Task.owes, Bool.and_eq_true, Bool.not_eq_true', Bool.or_eq_true] at ho
  obtain ⟨hh, hr | ⟨-, hack⟩⟩ := ho
  · cases hhands : hands task.delivery ⟨o, r⟩ with
    | true => exact .inl rfl
    | false => exact .inr (by simp [Task.owes, Task.answer, hh, hr, hhands])
  · refine .inl (hands_of_isAck ?_)
    simpa [Task.next, hrest] using hack

/-- A task that owes an ack is not over. -/
theorem Task.Pays.not_done (hp : task.Pays) (ho : task.owes = true) : task.rest.done = false := by
  simp only [Task.owes, Bool.and_eq_true, Bool.not_eq_true', Bool.or_eq_true] at ho
  obtain ⟨hh, hr | ⟨-, hack⟩⟩ := ho
  · unfold Pays at hp
    have hnot : ¬ Owed task.delivery task.past := fun h => absurd (h hr) (by simp [hh])
    cases hrest : task.rest with
    | pure a => rw [hrest] at hp; exact absurd hp hnot
    | raise x => rw [hrest] at hp; exact absurd hp hnot
    | call o k => rfl
  · cases hrest : task.rest with
    | pure a => simp [Task.next, hrest] at hack
    | raise x => simp [Task.next, hrest] at hack
    | call o k => rfl

theorem call_caught (h : s.call self thread d answers o = some p) : caught ⟨o, p.2⟩ := by
  cases o
  case addCallbackThreadsafe schedule =>
    cases h
    unfold addCallback
    repeat' split
    all_goals exact nofun
  all_goals trivial

/-- A callback returns as the action says. -/
theorem call_returning (h : s.call self thread d answers o = some p)
    (hr : returns ⟨o, p.2⟩ = true) : returning answers o = true := by
  cases o
  case callback properties body =>
    simp only [call] at h
    cases ha : answers (.callback properties body) with
    | ok r => simp [returning, ha, Except.isOk, Except.toBool]
    | error x =>
      rw [ha] at h
      cases h
      cases hr
  all_goals cases hr

/-- A call only adds to the lists. -/
theorem call_grows (h : s.call self thread d answers o = some p) :
    (∀ f ∈ s.scheduled, f ∈ p.1.scheduled) ∧ (∀ e ∈ s.calls, e ∈ p.1.calls) ∧
      ∀ x ∈ p.1.completed, x ∈ s.completed ∨ x = d ∧ returns ⟨o, p.2⟩ = true := by
  cases o
  case acquire =>
    simp only [call] at h
    split at h <;> cases h
    exact ⟨fun _ hf => hf, fun _ he => he, fun _ hx => .inl hx⟩
  case submit =>
    simp only [call] at h
    split at h
    · split at h <;> cases h
      exact ⟨fun _ hf => hf, fun _ he => he, fun _ hx => .inl hx⟩
    · cases h
      exact ⟨fun _ hf => hf, fun _ he => he, fun _ hx => .inl hx⟩
  case addDoneCallback =>
    obtain ⟨r, -, rfl⟩ := Option.map_eq_some_iff.mp h
    exact ⟨fun _ hf => hf, fun _ he => he, fun _ hx => .inl hx⟩
  case callback =>
    simp only [call] at h
    split at h <;> cases h
    · refine ⟨fun _ hf => hf, fun _ he => he, fun x hx => ?_⟩
      exact (List.mem_append.mp hx).imp_right fun hx => ⟨List.mem_singleton.mp hx, rfl⟩
    · exact ⟨fun _ hf => hf, fun _ he => he, fun _ hx => .inl hx⟩
  case addCallbackThreadsafe schedule =>
    cases h
    unfold addCallback
    repeat' split
    · exact ⟨fun _ hf => hf, fun _ he => he, fun _ hx => .inl hx⟩
    · exact ⟨fun _ hf => List.mem_append_left _ hf, fun _ he => he, fun _ hx => .inl hx⟩
    · exact ⟨fun _ hf => hf, fun _ he => he, fun _ hx => .inl hx⟩
  case basicPublish | basicAck | basicNack =>
    cases h
    exact ⟨fun _ hf => hf, fun _ he => List.mem_append_left _ he, fun _ hx => .inl hx⟩
  all_goals
    cases h
    exact ⟨fun _ hf => hf, fun _ he => he, fun _ hx => .inl hx⟩

/-- On an open channel, a delivery that is handed over is acked or scheduled. -/
theorem call_hands (h : s.call self thread d answers o = some p)
    (hopen : s.loop.channelOpen d.channel = true) (hserves : serves answers o = true)
    (hh : hands d ⟨o, p.2⟩ = true) : p.1.Acked d ∨ p.1.Left d := by
  cases o
  case basicAck ch deliveryTag =>
    cases h
    obtain ⟨rfl, rfl⟩ : ch = d.channel ∧ deliveryTag = d.deliveryTag := by simpa [hands] using hh
    refine .inl ⟨_, List.mem_append_right _ (List.mem_singleton_self _), rfl, hopen, ?_⟩
    dsimp only
    rw [if_pos hopen]
    cases ha : answers (.basicAck d.channel d.deliveryTag) with
    | ok u => rfl
    | error x => simp [serves, ha, Except.isOk, Except.toBool] at hserves
  case addCallbackThreadsafe schedule =>
    cases h
    refine .inr ?_
    unfold addCallback at hh ⊢
    split at hh
    · simp [hands] at hh
    · split at hh
      · next c hconn hcopen =>
        refine ⟨⟨c, d, schedule⟩, ?_, rfl, by simpa [hands] using hh⟩
        rw [if_pos hcopen]
        exact List.mem_append_right _ (List.mem_singleton_self _)
      · simp [hands] at hh
  all_goals cases hh

theorem Called.channelOpen (h : Called s t) (k : Nat) :
    t.loop.channelOpen k = s.loop.channelOpen k := by
  obtain ⟨stats, hloop⟩ := h.loop
  rw [hloop]
  rfl

theorem Acked.mono (h : s.Acked d) (hcalls : ∀ e ∈ s.calls, e ∈ t.calls) : t.Acked d := by
  obtain ⟨e, he, hack⟩ := h
  exact ⟨e, hcalls e he, hack⟩

theorem Left.mono (h : s.Left d) (hscheduled : ∀ f ∈ s.scheduled, f ∈ t.scheduled) : t.Left d := by
  obtain ⟨f, hf, hleft⟩ := h
  exact ⟨f, hscheduled f hf, hleft⟩

theorem Secured.step (h : s.Secured d) (hcalls : ∀ e ∈ s.calls, e ∈ t.calls)
    (hpending : s.loop.channelOpen d.channel = true → s.Pending d → t.Secured d) : t.Secured d := by
  rcases h with h | ⟨hopen, h⟩
  · exact .inl (h.mono hcalls)
  · exact hpending hopen h

/-- **A call of a task**: its callback returns while the channel is open, and what it
owes it hands over, or still owes. -/
theorem call_task (hp : task.Pays) (hrest : task.rest = .call o k)
    (h : s.call self thread task.delivery answers o = some p)
    (hserves : task.next.all (serves answers) = true) (htime : s.inTime answers task = true) :
    (task.answer o k p.2).Pays ∧
      (s.loop.channelOpen task.delivery.channel = true → task.owes = true →
        (p.1.Acked task.delivery ∨ p.1.Left task.delivery) ∨ (task.answer o k p.2).owes = true) ∧
      ∀ x ∈ p.1.completed, x ∈ s.completed ∨ x = task.delivery ∧
        s.loop.channelOpen task.delivery.channel = true ∧
        (task.answer o k p.2).owes = true := by
  have hnext : task.next = some o := by simp [Task.next, hrest]
  rw [hnext] at hserves
  refine ⟨hp.answer hrest (call_caught h), fun hopen ho => ?_, fun x hx => ?_⟩
  · exact (Task.owes_answer ho hrest).imp_left (call_hands h hopen hserves)
  · refine ((call_grows h).2.2 x hx).imp_right fun ⟨hd, hr⟩ => ⟨hd, ?_, hp.returns hrest hr⟩
    simpa [inTime, hnext, call_returning h hr] using htime

end

/-! ## Steps of the machine -/

theorem drains_initial (self : Config) : Drains (initial self) := ⟨nofun, nofun, nofun⟩

theorem goOn_owes (hp : task.Pays) (ho : task.owes = true) : (s.goOn task).task = some task := by
  have hdone := hp.not_done ho
  unfold goOn
  split <;> simp_all [Program.done]

theorem submitted_pays (hack : self.listener.autoAck = false) : (submitted self d).Pays :=
  offloaded_acks hack rfl rfl

theorem goOn_channelOpen (s : Offload) (task : Task) (k : Nat) :
    (s.goOn task).loop.channelOpen k = s.loop.channelOpen k := by
  unfold goOn
  split <;> rfl

theorem drains_runTask {answers : ∀ o : Op, o.Ans} (hack : self.listener.autoAck = false)
    (hs : Drains s) (hh : s.healthy (.runTask answers) = true)
    (hc : s.settling (.runTask answers) = true) (ht : s.runTask self answers = some t) :
    Drains t := by
  obtain ⟨task, o, k, p, htask, hrest, hcall, rfl⟩ := runTask_cases ht
  simp only [healthy, settling, htask, Option.all_some] at hh hc
  obtain ⟨hpays, howes, hcompleted⟩ := call_task (hs.task task htask) hrest hcall hh hc
  obtain ⟨hcalled, hworkers, -⟩ := call_changes hcall
  obtain ⟨hscheduled, hcalls, -⟩ := call_grows hcall
  obtain ⟨hw, hf, he, hd⟩ := goOn_rest p.1 (task.answer o k p.2)
  have hopen : ∀ k', (p.1.goOn (task.answer o k p.2)).loop.channelOpen k' =
      s.loop.channelOpen k' := fun k' =>
    (goOn_channelOpen _ _ k').trans (hcalled.channelOpen k')
  have hstill : s.loop.channelOpen task.delivery.channel = true →
      (task.answer o k p.2).owes = true →
      (p.1.goOn (task.answer o k p.2)).Secured task.delivery := fun h ho =>
    .inr ⟨(hopen _).trans h, .inr (.inr ⟨_, goOn_owes hpays ho, rfl, ho⟩)⟩
  refine ⟨fun task' h => ?_, fun w h => ?_, fun d h => ?_⟩
  · obtain rfl := goOn_task h
    exact hpays
  · rw [hw, hworkers] at h
    rcases List.mem_append.mp h with h | h
    · exact hs.workers w h
    · rw [spawned_cases h]
      exact submitted_pays hack
  · rcases hcompleted d (hd ▸ h) with h | ⟨rfl, h, ho⟩
    · refine (hs.completed d h).step (fun e h => he ▸ hcalls e h) fun h hpending => ?_
      rcases hpending with ⟨w, hmem, hdelivery⟩ | hleft | ⟨task', htask', rfl, ho⟩
      · refine .inr ⟨(hopen _).trans h, .inl ⟨w, ?_, hdelivery⟩⟩
        rw [hw, hworkers]
        exact List.mem_append_left _ hmem
      · exact .inr ⟨(hopen _).trans h, .inr (.inl (hleft.mono fun f h => hf ▸ hscheduled f h))⟩
      · obtain rfl : task = task' := Option.some.inj (htask.symm.trans htask')
        rcases howes h ho with (hacked | hleft) | ho
        · exact .inl (hacked.mono fun e h => he ▸ h)
        · exact .inr ⟨(hopen _).trans h, .inr (.inl (hleft.mono fun f h => hf ▸ h))⟩
        · exact hstill h ho
    · exact hstill h ho

theorem drains_work {answers : ∀ o : Op, o.Ans} (hack : self.listener.autoAck = false)
    (hs : Drains s) (hh : s.healthy (.work i answers) = true)
    (hc : s.settling (.work i answers) = true) (ht : s.work self i answers = some t) :
    Drains t := by
  obtain ⟨w, o, k, hi, hrest, ht⟩ := work_cases ht
  have hlt := (List.getElem?_eq_some_iff.mp hi).1
  have hw := hs.workers w (List.mem_of_getElem? hi)
  rcases ht with rfl | ⟨p, hcall, rfl⟩
  · refine ⟨hs.task, fun x hx => ?_, fun d h => ?_⟩
    · rcases List.mem_or_eq_of_mem_set hx with hx | rfl
      · exact hs.workers x hx
      · exact hw
    · refine (hs.completed d h).step (fun _ h => h) fun h hpending => .inr ⟨h, ?_⟩
      refine hpending.imp_left fun ⟨x, hx, hdelivery, ho⟩ => ?_
      by_cases hne : x = w
      · subst hne
        exact ⟨_, List.mem_set hlt _, hdelivery, ho⟩
      · exact ⟨x, mem_set_of_ne hi hx hne, hdelivery, ho⟩
  · simp only [healthy, settling, hi, Option.all_some] at hh hc
    obtain ⟨hpays, howes, hcompleted⟩ := call_task hw hrest hcall hh hc
    obtain ⟨hcalled, hworkers, -⟩ := call_changes hcall
    obtain ⟨hscheduled, hcalls, -⟩ := call_grows hcall
    have hi' : p.1.workers[i]? = some w := by
      rw [hworkers, List.getElem?_append_left hlt]
      exact hi
    have hstill : s.loop.channelOpen w.delivery.channel = true →
        (w.answer o k p.2).owes = true →
        Secured { p.1 with workers := p.1.workers.set i (w.answer o k p.2) } w.delivery :=
      fun h ho => .inr ⟨(hcalled.channelOpen _).trans h,
        .inl ⟨_, List.mem_set (List.getElem?_eq_some_iff.mp hi').1 _, rfl, ho⟩⟩
    refine ⟨fun task h => hs.task task (hcalled.task ▸ h), fun x hx => ?_, fun d h => ?_⟩
    · rcases List.mem_or_eq_of_mem_set hx with hx | rfl
      · rw [hworkers] at hx
        rcases List.mem_append.mp hx with hx | hx
        · exact hs.workers x hx
        · rw [spawned_cases hx]
          exact submitted_pays hack
      · exact hpays
    · rcases hcompleted d h with h | ⟨rfl, h, ho⟩
      · refine (hs.completed d h).step hcalls fun hon hpending => ?_
        have hopen := (hcalled.channelOpen d.channel).trans hon
        rcases hpending with ⟨x, hx, rfl, ho⟩ | hleft | ⟨task, htask, htail⟩
        · by_cases hne : x = w
          · subst hne
            rcases howes hon ho with (hacked | hleft) | ho
            · exact .inl hacked
            · exact .inr ⟨hopen, .inr (.inl hleft)⟩
            · exact hstill hon ho
          · refine .inr ⟨hopen, .inl ⟨x, mem_set_of_ne hi' ?_ hne, rfl, ho⟩⟩
            rw [hworkers]
            exact List.mem_append_left _ hx
        · exact .inr ⟨hopen, .inr (.inl (hleft.mono hscheduled))⟩
        · exact .inr ⟨hopen, .inr (.inr ⟨task, hcalled.task ▸ htask, htail⟩)⟩
      · exact hstill h ho

/-- The loop moves, and closes nothing while an ack is pending. -/
theorem Drains.keeps (hs : Drains s) (hkeeps : s.owing = true → ListenerLoop.Keeps s.loop t.loop)
    (htask : t.task = s.task) (hworkers : t.workers = s.workers)
    (hscheduled : t.scheduled = s.scheduled) (hcalls : t.calls = s.calls)
    (hcompleted : t.completed = s.completed) : Drains t where
  task task h := hs.task task (htask ▸ h)
  workers w h := hs.workers w (hworkers ▸ h)
  completed d h := by
    refine (hs.completed d (hcompleted ▸ h)).step (fun e h => hcalls ▸ h) fun hopen hpending => ?_
    refine .inr ⟨hkeeps hpending.owing _ hopen, ?_⟩
    unfold Pending Left
    rw [hworkers, hscheduled, htask]
    exact hpending

/-- A scheduled ack owes what it was scheduled for. -/
theorem scheduled_owes {f : Scheduled} (h : acks f.delivery f.schedule = true) :
    f.task.owes = true := by
  obtain ⟨c, d, schedule⟩ := f
  cases schedule with
  | ack tag =>
    obtain rfl : tag = d.deliveryTag := by simpa [acks] using h
    have hnext : (Scheduled.task ⟨c, d, .ack d.deliveryTag⟩).next =
        some (.basicAck d.channel d.deliveryTag) := rfl
    have hack : isAck d (.basicAck d.channel d.deliveryTag) = true := by simp [isAck]
    simp only [Task.owes, hnext]
    simp [Scheduled.task, Task.begin, hack]
  | fail tag cfg attempt => cases h

theorem drains_step {a : Action} (hack : self.listener.autoAck = false) (hs : Drains s)
    (hh : s.healthy a = true) (hsettling : s.settling a = true) (ht : s.step self a = some t) :
    Drains t := by
  have hc := step_cases ht
  cases a with
  | loop a =>
    obtain ⟨loop, shut, hloop, rfl, -⟩ := hc
    refine hs.keeps (fun howing => ListenerLoop.keeps_step ?_ hloop) rfl rfl rfl rfl rfl
    simpa [settling, howing] using hsettling
  | deliver d =>
    obtain ⟨⟨-, hnone⟩, -, rfl⟩ := hc
    refine ⟨?_, hs.workers, fun x hx => ?_⟩
    · rintro task ⟨⟩
      exact Listener.wp_onMessage (fun _ _ _ => id) (offloadWrapper_acks hack rfl rfl)
    · refine (hs.completed x hx).step (fun _ h => h) fun hopen hpending => ?_
      rcases hpending with hworker | hleft | ⟨task, htask, -⟩
      · exact .inr ⟨hopen, .inl hworker⟩
      · exact .inr ⟨hopen, .inr (.inl hleft)⟩
      · rw [hnone] at htask
        cases htask
  | runScheduled j =>
    obtain ⟨f, hj, ⟨-, hnone⟩, rfl⟩ := hc
    refine ⟨?_, hs.workers, fun x hx => ?_⟩
    · rintro task ⟨⟩
      exact schedule_unreturned rfl fun _ _ h => .of_unreturned h
    · refine (hs.completed x hx).step (fun _ h => h) fun hopen hpending => ?_
      rcases hpending with hworker | ⟨g, hg, hdelivery, hacks⟩ | ⟨task, htask, -⟩
      · exact .inr ⟨hopen, .inl hworker⟩
      · by_cases hne : g = f
        · subst hne
          refine .inr ⟨hopen, .inr (.inr ⟨_, rfl, hdelivery, scheduled_owes ?_⟩)⟩
          rw [hdelivery]
          exact hacks
        · exact .inr ⟨hopen, .inr (.inl ⟨g, mem_eraseIdx_of_ne hj hg hne, hdelivery, hacks⟩)⟩
      · rw [hnone] at htask
        cases htask
  | runRequest raises =>
    obtain ⟨-, rfl⟩ := hc
    refine hs.keeps (fun howing => ?_) rfl rfl rfl rfl rfl
    have hidle : s.loop.requested = false := by simpa [settling, howing] using hsettling
    rw [ListenerLoop.runQueued_of_not_requested hidle]
    exact .same rfl rfl
  | runTask answers => exact drains_runTask hack hs hh hsettling hc
  | work i answers => exact drains_work hack hs hh hsettling hc
  | leave =>
    obtain ⟨loop, exit, rfl | hstep, rfl⟩ := hc
    · exact hs.keeps (fun _ => .same rfl rfl) rfl rfl rfl rfl rfl
    · exact hs.keeps (fun _ => ListenerLoop.keeps_step rfl hstep) rfl rfl rfl rfl rfl

theorem drains_of_reach (hack : self.listener.autoAck = false)
    (h : (machine self).Reach (fun s a => (s.healthy a && s.settling a) = true) s) : Drains s := by
  refine Machine.Path.invariant h (drains_initial self) fun s a t hc hs ht => ?_
  obtain ⟨hh, hc⟩ := Bool.and_eq_true_iff.mp hc
  exact drains_step hack hs hh hc ht

/-- **`__exit__` settles what was drained**: when the connection is healthy and every
step is `settling`, also the one by which `__exit__` returns, each delivery whose
callback has returned by then was acked on its channel while that was open. -/
theorem exit_settles (hack : self.listener.autoAck = false)
    (hs : (machine self).Reach (fun s a => (s.healthy a && s.settling a) = true) s)
    (hc : s.settling .leave = true) (ht : s.leave = some t) (hexit : t.exit = .returned) :
    ∀ d ∈ t.completed, t.Acked d := by
  have hdrains := drains_of_reach hack hs
  unfold leave at ht
  cases he : s.exit <;> simp only [he] at ht
  case inside =>
    obtain ⟨loop, -, rfl⟩ := Option.map_eq_some_iff.mp ht
    cases hexit
  case stopping =>
    split at ht <;> cases ht
    cases hexit
  case returned => cases ht
  case waiting =>
    split at ht <;> cases ht
    next hdone =>
    have hlags : s.lags = false := by simpa [settling, he] using hc
    intro d hd
    rcases hdrains.completed d hd with hacked | ⟨-, hpending⟩
    · exact hacked
    · have hover : s.workers.any Task.owes = false := by
        rw [List.any_eq_false]
        intro w hw ho
        rcases mem_pool hw with hpool | ⟨hlate, hlast⟩
        · have hopen := (hdrains.workers w hw).not_done ho
          rw [List.all_eq_true.mp hdone w hpool] at hopen
          cases hopen
        · simp [lags, belated, hlate, hlast, ho] at hlags
      have howing := hpending.owing
      simp [owing, hover, hlags] at howing

/-- `__exit__` stops the listener, and the pump runs the request. -/
def stops : List Action := .leave :: List.replicate 4 (.loop .stop) ++ [.runRequest false]

/-- The ack is sent before the listener is stopped, and `__exit__` waits for the worker,
which is over. -/
def drained : Offload :=
  ((machine poolConfig).runIn (fun s a => s.healthy a && s.settling a) (initial poolConfig)
    (firstPump ++ handOver 1 5 ++ works 0 5 ++
      .runScheduled 0 :: List.replicate 2 (.runTask (answering (.ok .value) (.ok ()) (.ok ()))) ++
      stops ++ [.leave])).getD (initial poolConfig)

theorem drained_reach :
    (machine poolConfig).Reach (fun s a => (s.healthy a && s.settling a) = true) drained :=
  Machine.path_of_isSome (by decide +kernel) (initial poolConfig)

theorem drained_leave : drained.leave.isSome = true := by decide +kernel

theorem exit_settles_drained :
    (drained.leave.get drained_leave).completed.map Delivery.deliveryTag = [1] ∧
      ∀ d ∈ (drained.leave.get drained_leave).completed,
        (drained.leave.get drained_leave).Acked d :=
  ⟨by decide +kernel, exit_settles (by rfl) drained_reach (by decide +kernel)
    (Option.some_get drained_leave).symm (by decide +kernel)⟩

/-- The request has closed the channel before the callback returns. -/
def hasty : Offload :=
  ((machine poolConfig).runIn healthy (initial poolConfig)
    (firstPump ++ handOver 1 5 ++ stops ++ works 0 5 ++ [.leave, .leave])).getD (initial poolConfig)

/-- `__exit__` has returned, and the delivery is not acked. -/
theorem exit_loses_ack : (machine poolConfig).Reach (fun s a => s.healthy a = true) hasty ∧
    hasty.exit = .returned ∧ ∃ d ∈ hasty.completed, ¬ hasty.Acked d := by
  have hcalls : ∀ e ∈ hasty.calls, e.isOpen = false := by decide +kernel
  have hlength : hasty.completed.length = 1 := by decide +kernel
  obtain ⟨d, hd⟩ := List.exists_mem_of_length_pos (l := hasty.completed) (by omega)
  refine ⟨Machine.path_of_isSome (by decide +kernel) (initial poolConfig), by decide +kernel,
    d, hd, ?_⟩
  rintro ⟨e, he, -, hopen, -⟩
  rw [hcalls e he] at hopen
  cases hopen

end Offload

end MqAdapters
