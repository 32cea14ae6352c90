import MqAdapters.Delivery.Sync
import MqAdapters.Listener.Loop

/-!
# The listener with its worker pool

`Listener` as one machine: the I/O thread in `run` and, inside `process_data_events`,
in a wrapper or in a function that was scheduled; the workers of the executor; a
thread in `stop_listening`; and the thread that leaves the `with` block.

* `Delivery.Sync` says what a wrapper, a worker and a scheduled function call.  One
  call is one step, answered by the state where the code reads it: `stop_me`, the
  semaphore, the connection, whether a channel is open.  The action says what the
  callback does and whether `submit` or a call on an open channel raises.
* `self.__connection` is read twice before `is_open`; each read is a step.  The third
  read, for `add_callback_threadsafe`, is one step with the call, which raises if the
  connection is not open.
* A scheduled function runs only inside a later `process_data_events` of its
  connection, in any order with the deliveries and with the request to stop.
* `submit` raises a `RuntimeError` after `shutdown`, and may raise before; otherwise
  it runs the callback once, on one of `max_workers` threads.  That thread runs
  `_on_done` too, if `add_done_callback` came first.  If the callback ended first, the
  thread is free again, and `add_done_callback` runs `_on_done` on the I/O thread
  before it returns.
* What `except Exception` lets through on the I/O thread ends that thread: its task
  stays as it is.
-/

namespace MqAdapters

open Python Theory

/-- `self.__stats.inc(counter)`. -/
def Stats.count (s : Stats) : Counter → Stats
  | .received => { s with received := s.received + 1 }
  | .handlerExceptions => { s with handlerExceptions := s.handlerExceptions + 1 }
  | .acked => { s with acked := s.acked + 1 }
  | .nacked => { s with nacked := s.nacked + 1 }

namespace Offload

/-- The arguments of `Listener.__init__` that later code reads. -/
structure Config where
  loop : ListenerLoop.Config
  listener : Listener
  maxWorkers : Option Int
  maxInFlight : Option Int

namespace Config

variable (self : Config)

def workers : Nat := (max 1 (self.maxWorkers.getD 10)).toNat

def inFlight : Nat := (max 1 (self.maxInFlight.getD self.workers)).toNat

end Config

/-- What a thread does with a delivery: the calls it has made, and what is left. -/
structure Task where
  delivery : Delivery
  past : List Call
  rest : Code Unit
  /-- the first read of `self.__connection` found one -/
  connectionSet : Bool

namespace Task

def begin (d : Delivery) (code : Code Unit) : Task := ⟨d, [], code, false⟩

/-- The call `o` is answered. -/
def answer (task : Task) (o : Op) (k : o.Ans → Code Unit) (r : o.Ans) : Task :=
  { task with past := task.past ++ [⟨o, r⟩], rest := k r, connectionSet := false }

/-- It has begun and is not over. -/
def running (task : Task) : Bool := !task.past.isEmpty && !task.rest.done

/-- `fut.add_done_callback(_on_done)` is next. -/
def adding (task : Task) : Bool :=
  match task.rest with
  | .call o _ => match o with
    | .addDoneCallback => true
    | _ => false
  | .pure _ => false
  | .raise _ => false

end Task

/-- A thread that handles deliveries. -/
inductive Thread
  | io
  | worker (i : Nat)
  deriving DecidableEq

/-- A call on a channel: who made it, whether the channel was open, and its answer. -/
structure ChannelCall where
  thread : Thread
  op : Op
  isOpen : Bool
  answer : Except Raised Unit

/-- A function that `add_callback_threadsafe` took. -/
structure Scheduled where
  connection : Nat
  delivery : Delivery
  schedule : Schedule

/-- Where the thread in the `with` block is. -/
inductive ExitPc
  | inside
  /-- `self.stop_listening()` -/
  | stopping
  /-- `self.__executor.shutdown(wait=True)` -/
  | waiting
  | returned
  deriving DecidableEq

end Offload

open Offload

structure Offload where
  /-- the fields, `run` and `stop_listening` -/
  loop : ListenerLoop
  /-- the permits left in `self.__in_flight_sema` -/
  permits : Nat
  /-- `shutdown` was called on the executor -/
  shut : Bool
  /-- what the I/O thread runs inside `process_data_events` -/
  task : Option Task
  /-- the submitted callbacks -/
  workers : List Task
  scheduled : List Scheduled
  exit : ExitPc
  /-- the calls on channels so far -/
  calls : List ChannelCall
  /-- the deliveries whose callback has returned normally -/
  completed : List Delivery

namespace Offload

variable (self : Config)

def initial : Offload where
  loop := ListenerLoop.initial
  permits := self.inFlight
  shut := false
  task := none
  workers := []
  scheduled := []
  exit := .inside
  calls := []
  completed := []

/-! ## Calls -/

/-- The wrapper of the consumer, on a delivery. -/
def wrapper (d : Delivery) : Task :=
  .begin d (self.listener.onMessage d.channel d.method d.properties d.body)

/-- A submitted callback, and its `_on_done`. -/
def submitted (d : Delivery) : Task :=
  .begin d (offloaded self.listener.toSettings d.channel d.method d.properties d.body)

/-- The body of a scheduled function. -/
def Scheduled.task (f : Scheduled) : Task :=
  .begin f.delivery (f.schedule.run f.delivery.channel f.delivery.properties f.delivery.body)

/-- The callback that was submitted last has ended before `add_done_callback`, so its
`_on_done` is the business of the I/O thread. -/
def late (s : Offload) : Bool :=
  s.task.any Task.adding && s.workers.getLast?.any fun w => !w.past.isEmpty

/-- What the pool runs, has run or will run. -/
def pool (s : Offload) : List Task := if s.late then s.workers.dropLast else s.workers

/-- The thread that takes the next step of the `i`-th submitted callback. -/
def threadOf (s : Offload) (i : Nat) : Thread :=
  if s.late && i + 1 == s.workers.length then .io else .worker i

/-- `fut.add_done_callback(_on_done)`: it returns at once if the callback has not ended,
and otherwise as `_on_done` ends. -/
def addDone (s : Offload) : Option Bool :=
  if s.late then s.workers.getLast?.bind fun w => match w.rest with
    | .pure _ => some true
    | .raise .exception => some true
    | .raise .baseException => some false
    | .call _ _ => none
  else some true

/-- A call on the channel `ch`, which raises if that is not open. -/
def onChannel (s : Offload) (thread : Thread) (o : Op) (ch : Nat) (r : Except Raised Unit) :
    Offload × Except Raised Unit :=
  let r := if s.loop.channelOpen ch then r else .error .exception
  ({ s with calls := s.calls ++ [⟨thread, o, s.loop.channelOpen ch, r⟩] }, r)

/-- `self.__connection.add_callback_threadsafe(...)`. -/
def addCallback (s : Offload) (d : Delivery) (schedule : Schedule) :
    Offload × Except Raised Unit :=
  match s.loop.connection with
  | none => (s, .error .exception)
  | some c =>
    if s.loop.connections.isOpen c then
      ({ s with scheduled := s.scheduled ++ [⟨c, d, schedule⟩] }, .ok ())
    else (s, .error .exception)

/-- A thread makes the call `o` as it handles the delivery `d`; the answer is read
from the state, or is the given one. -/
def call (s : Offload) (thread : Thread) (d : Delivery) (answers : ∀ o : Op, o.Ans) :
    (o : Op) → Option (Offload × o.Ans)
  | .stopMe => some (s, s.loop.stopMe)
  | .acquire => if s.permits = 0 then none else some ({ s with permits := s.permits - 1 }, .ok ())
  | .release => some ({ s with permits := s.permits + 1 }, .ok ())
  | .submit => match answers .submit with
    | .ok _ =>
      if s.shut then none
      else some ({ s with workers := s.workers ++ [submitted self d] }, .ok ())
    | .error _ => some (s, .error .exception)
  | .addDoneCallback => s.addDone.map fun r => (s, r)
  | .callback properties body => match answers (.callback properties body) with
    | .ok r => some ({ s with completed := s.completed ++ [d] }, .ok r)
    | .error x => some (s, .error x)
  | .connectionIsOpen => some (s, s.loop.connected)
  | .addCallbackThreadsafe schedule => some (s.addCallback d schedule)
  | .basicPublish ch exchange routingKey body properties =>
    let o : Op := .basicPublish ch exchange routingKey body properties
    some (s.onChannel thread o ch (answers o))
  | .basicAck ch deliveryTag =>
    some (s.onChannel thread (.basicAck ch deliveryTag) ch (answers (.basicAck ch deliveryTag)))
  | .basicNack ch deliveryTag requeue =>
    let o : Op := .basicNack ch deliveryTag requeue
    some (s.onChannel thread o ch (answers o))
  | .inc counter =>
    some ({ s with loop := { s.loop with stats := s.loop.stats.count counter } }, ())
  | o => some (s, answers o)

/-! ## The I/O thread -/

/-- The I/O thread is in `process_data_events`, and in no function of the listener. -/
def pumping (s : Offload) : Bool := s.loop.pc == .pump && s.task.isNone

/-- `on_message_callback`, on a channel of the connection that is pumped. -/
def deliver (s : Offload) (d : Delivery) : Option Offload :=
  if s.pumping && (s.loop.channels[d.channel]?).any fun ch =>
      s.loop.connection == some ch.connection then
    some { s with task := some (wrapper self d) }
  else none

/-- The `i`-th scheduled function starts. -/
def runScheduled (s : Offload) (i : Nat) : Option Offload :=
  (s.scheduled[i]?).bind fun f =>
    if s.pumping && s.loop.connection == some f.connection then
      some { s with scheduled := s.scheduled.eraseIdx i, task := some f.task }
    else none

/-- `_request_stop_and_close`. -/
def runRequest (s : Offload) (raises : Bool) : Option Offload :=
  if s.pumping then some { s with loop := s.loop.runQueued raises } else none

/-- The I/O thread goes on with its task, and leaves it when that is over.  An
exception leaves `process_data_events` too. -/
def goOn (s : Offload) (task : Task) : Offload :=
  match task.rest with
  | .pure _ => { s with task := none }
  | .raise .exception => { s with task := none, loop := s.loop.pump false true }
  | .raise .baseException => { s with task := some task }
  | .call _ _ => { s with task := some task }

/-- One step of the function that the I/O thread is in. -/
def runTask (s : Offload) (answers : ∀ o : Op, o.Ans) : Option Offload :=
  s.task.bind fun task => match task.rest with
    | .call o k => (s.call self .io task.delivery answers o).map fun p =>
      p.1.goOn (task.answer o k p.2)
    | .pure _ => none
    | .raise _ => none

/-! ## The submitted callbacks, and the other threads -/

/-- The call reads `self.__connection` twice. -/
def readsTwice : Op → Bool
  | .connectionIsOpen => true
  | _ => false

/-- One step of the `i`-th submitted callback and its `_on_done`. -/
def work (s : Offload) (i : Nat) (answers : ∀ o : Op, o.Ans) : Option Offload :=
  (s.workers[i]?).bind fun w => match w.rest with
    | .call o k =>
      -- the callback waits for a thread of the pool
      if w.past.isEmpty && self.workers ≤ s.pool.countP Task.running then none
      else if readsTwice o && !w.connectionSet && s.loop.connection.isSome then
        some { s with workers := s.workers.set i { w with connectionSet := true } }
      else (s.call self (s.threadOf i) w.delivery answers o).map fun p =>
        { p.1 with workers := p.1.workers.set i (w.answer o k p.2) }
    | .pure _ => none
    | .raise _ => none

/-- One step of `__exit__`. -/
def leave (s : Offload) : Option Offload :=
  match s.exit with
  | .inside => s.loop.callStop.map fun loop => { s with loop := loop, exit := .stopping }
  | .stopping => if s.loop.stopping = .idle then some { s with exit := .waiting } else none
  | .waiting =>
    if s.pool.all fun w => w.rest.done then some { s with exit := .returned } else none
  | .returned => none

/-- One step of `run` outside these functions, of `stop_listening`, or of the broker.
`stop_listening` shuts the executor down as it sets `stop_me`. -/
def stepLoop (s : Offload) (a : ListenerLoop.Action) : Option Offload :=
  match a with
  | .io raises runs draw =>
    if s.task.isSome then none
    else (s.loop.io self.loop raises runs draw).map fun loop => { s with loop := loop }
  | .stop => s.loop.stop.map fun loop =>
    { s with loop := loop, shut := s.shut || s.loop.stopping == .set }
  | a => (s.loop.step self.loop a).map fun loop => { s with loop := loop }

inductive Action
  | loop (a : ListenerLoop.Action)
  | deliver (d : Delivery)
  | runScheduled (i : Nat)
  | runRequest (raises : Bool)
  | runTask (answers : ∀ o : Op, o.Ans)
  | work (i : Nat) (answers : ∀ o : Op, o.Ans)
  | leave

def step (s : Offload) : Action → Option Offload
  | .loop a => s.stepLoop self a
  | .deliver d => s.deliver self d
  | .runScheduled i => s.runScheduled i
  | .runRequest raises => s.runRequest raises
  | .runTask answers => s.runTask self answers
  | .work i answers => s.work self i answers
  | .leave => s.leave

def machine : Machine Offload Action where
  init := initial self
  step := step self

/-! ## What a step is -/

section

variable {self : Config} {s t : Offload} {i : Nat} {answers : ∀ o : Op, o.Ans}

/-- A step of the I/O thread in a function is a call. -/
theorem runTask_cases (ht : s.runTask self answers = some t) :
    ∃ task o k p, s.task = some task ∧ task.rest = .call o k ∧
      s.call self .io task.delivery answers o = some p ∧ t = p.1.goOn (task.answer o k p.2) := by
  obtain ⟨task, htask, ht⟩ := Option.bind_eq_some_iff.mp ht
  cases hrest : task.rest with
  | pure a => simp only [hrest] at ht; cases ht
  | raise x => simp only [hrest] at ht; cases ht
  | call o k =>
    simp only [hrest] at ht
    obtain ⟨p, hcall, rfl⟩ := Option.map_eq_some_iff.mp ht
    exact ⟨task, o, k, p, htask, hrest, hcall, rfl⟩

/-- What one step of a submitted callback is: a first read of the connection, or a call. -/
theorem work_cases (ht : s.work self i answers = some t) :
    ∃ w o k, s.workers[i]? = some w ∧ w.rest = .call o k ∧
      (t = { s with workers := s.workers.set i { w with connectionSet := true } } ∨
        ∃ p, s.call self (s.threadOf i) w.delivery answers o = some p ∧
          t = { p.1 with workers := p.1.workers.set i (w.answer o k p.2) }) := by
  obtain ⟨w, hi, ht⟩ := Option.bind_eq_some_iff.mp ht
  cases hrest : w.rest with
  | pure a => simp only [hrest] at ht; cases ht
  | raise x => simp only [hrest] at ht; cases ht
  | call o k =>
    simp only [hrest] at ht
    refine ⟨w, o, k, hi, hrest, ?_⟩
    split at ht
    · cases ht
    · split at ht
      · refine .inl ?_
        rw [hrest]
        exact (Option.some.inj ht).symm
      · obtain ⟨p, hcall, rfl⟩ := Option.map_eq_some_iff.mp ht
        exact .inr ⟨p, hcall, rfl⟩

theorem stepLoop_changes {a : ListenerLoop.Action} (ht : s.stepLoop self a = some t) :
    ∃ loop shut, s.loop.step self.loop a = some loop ∧ t = { s with loop := loop, shut := shut } ∧
      (∀ raises runs draw, a = .io raises runs draw → s.task = none) := by
  unfold stepLoop at ht
  split at ht
  · split at ht
    · cases ht
    · next htask =>
      obtain ⟨loop, hloop, rfl⟩ := Option.map_eq_some_iff.mp ht
      exact ⟨loop, _, hloop, rfl, fun _ _ _ _ => by simpa using htask⟩
  · obtain ⟨loop, hloop, rfl⟩ := Option.map_eq_some_iff.mp ht
    exact ⟨loop, _, hloop, rfl, nofun⟩
  · next hio _ =>
    obtain ⟨loop, hloop, rfl⟩ := Option.map_eq_some_iff.mp ht
    exact ⟨loop, _, hloop, rfl, fun raises runs draw h => absurd h (hio raises runs draw)⟩

theorem leave_changes (self : ListenerLoop.Config) (ht : s.leave = some t) : ∃ loop exit,
    (loop = s.loop ∨ s.loop.step self .callStop = some loop) ∧
      t = { s with loop := loop, exit := exit } := by
  unfold leave at ht
  split at ht
  · obtain ⟨loop, hloop, rfl⟩ := Option.map_eq_some_iff.mp ht
    exact ⟨loop, _, .inr hloop, rfl⟩
  · split at ht <;> cases ht
    exact ⟨_, _, .inl rfl, rfl⟩
  · split at ht <;> cases ht
    exact ⟨_, _, .inl rfl, rfl⟩
  · cases ht

theorem pumping_iff : s.pumping = true ↔ s.loop.pc = .pump ∧ s.task = none := by
  simp [pumping]

/-- **What each step does**, in which states. -/
theorem step_cases {a : Action} (ht : s.step self a = some t) :
    match a with
    | .loop a => ∃ loop shut, s.loop.step self.loop a = some loop ∧
        t = { s with loop := loop, shut := shut } ∧
        ∀ raises runs draw, a = .io raises runs draw → s.task = none
    | .deliver d => (s.loop.pc = .pump ∧ s.task = none) ∧
        (∃ ch, s.loop.channels[d.channel]? = some ch ∧ s.loop.connection = some ch.connection) ∧
        t = { s with task := some (wrapper self d) }
    | .runScheduled i => ∃ f, s.scheduled[i]? = some f ∧ (s.loop.pc = .pump ∧ s.task = none) ∧
        t = { s with scheduled := s.scheduled.eraseIdx i, task := some f.task }
    | .runRequest raises => (s.loop.pc = .pump ∧ s.task = none) ∧
        t = { s with loop := s.loop.runQueued raises }
    | .runTask answers => s.runTask self answers = some t
    | .work i answers => s.work self i answers = some t
    | .leave => ∃ loop exit, (loop = s.loop ∨ s.loop.step self.loop .callStop = some loop) ∧
        t = { s with loop := loop, exit := exit } := by
  cases a with
  | loop a => exact stepLoop_changes ht
  | deliver d =>
    simp only [step, deliver] at ht
    split at ht <;> cases ht
    next hpump =>
    obtain ⟨hpump, hch⟩ := Bool.and_eq_true_iff.mp hpump
    obtain ⟨ch, hch, hconn⟩ := (Option.any_eq_true _ _).mp hch
    exact ⟨pumping_iff.mp hpump, ⟨ch, hch, beq_iff_eq.mp hconn⟩, rfl⟩
  | runScheduled j =>
    obtain ⟨f, hf, ht⟩ := Option.bind_eq_some_iff.mp ht
    split at ht <;> cases ht
    next hpump => exact ⟨f, hf, pumping_iff.mp (Bool.and_eq_true_iff.mp hpump).1, rfl⟩
  | runRequest raises =>
    simp only [step, runRequest] at ht
    split at ht <;> cases ht
    next hpump => exact ⟨pumping_iff.mp hpump, rfl⟩
  | runTask answers => exact ht
  | work i answers => exact ht
  | leave => exact leave_changes self.loop ht

end

/-! ## What a call changes -/

/-- The workers that a call starts. -/
def spawned (d : Delivery) : Call → List Task
  | ⟨.submit, r⟩ => match r with
    | .ok _ => [submitted self d]
    | .error _ => []
  | _ => []

/-- The permits that a call takes. -/
def taken : Op → Nat
  | .acquire => 1
  | _ => 0

/-- The permits that a call gives back. -/
def given : Op → Nat
  | .release => 1
  | _ => 0

/-- What no call touches. -/
structure Called (s t : Offload) : Prop where
  loop : ∃ stats, t.loop = { s.loop with stats := stats }
  task : t.task = s.task
  exit : t.exit = s.exit
  shut : t.shut = s.shut

section

variable {self : Config} {s t : Offload} {thread : Thread} {d : Delivery}
  {answers : ∀ o : Op, o.Ans} {o : Op} {p : Offload × o.Ans}

theorem exists_addCallback (s : Offload) (d : Delivery) (schedule : Schedule) :
    ∃ scheduled, (s.addCallback d schedule).1 = { s with scheduled := scheduled } := by
  unfold addCallback
  repeat' split
  all_goals exact ⟨_, rfl⟩

/-- What a call changes beside the log: the permits, the workers, the counters. -/
theorem call_changes (h : s.call self thread d answers o = some p) : Called s p.1 ∧
    p.1.workers = s.workers ++ spawned self d ⟨o, p.2⟩ ∧
    p.1.permits + taken o = s.permits + given o := by
  cases o
  case acquire =>
    simp only [call] at h
    split at h <;> cases h
    refine ⟨⟨⟨_, rfl⟩, rfl, rfl, rfl⟩, by simp [spawned], ?_⟩
    simp only [taken, given]
    omega
  case submit =>
    simp only [call] at h
    split at h
    · split at h <;> cases h
      exact ⟨⟨⟨_, rfl⟩, rfl, rfl, rfl⟩, rfl, rfl⟩
    · cases h
      exact ⟨⟨⟨_, rfl⟩, rfl, rfl, rfl⟩, by simp [spawned], rfl⟩
  case addDoneCallback =>
    obtain ⟨r, -, rfl⟩ := Option.map_eq_some_iff.mp h
    exact ⟨⟨⟨_, rfl⟩, rfl, rfl, rfl⟩, by simp [spawned], rfl⟩
  case callback =>
    simp only [call] at h
    split at h <;> cases h
    all_goals exact ⟨⟨⟨_, rfl⟩, rfl, rfl, rfl⟩, by simp [spawned], rfl⟩
  case addCallbackThreadsafe schedule =>
    cases h
    obtain ⟨scheduled, heq⟩ := exists_addCallback s d schedule
    rw [heq]
    exact ⟨⟨⟨_, rfl⟩, rfl, rfl, rfl⟩, by simp [spawned], rfl⟩
  all_goals
    cases h
    exact ⟨⟨⟨_, rfl⟩, rfl, rfl, rfl⟩, by simp [spawned, onChannel], rfl⟩

/-- The channel that the call is on. -/
def target : Op → Option Nat
  | .basicAck ch _ => some ch
  | .basicNack ch _ _ => some ch
  | .basicPublish ch _ _ _ _ => some ch
  | _ => none

/-- A call schedules at most one function, for its own delivery. -/
theorem call_scheduled (h : s.call self thread d answers o = some p) {f : Scheduled}
    (hf : f ∈ p.1.scheduled) : f ∈ s.scheduled ∨ f.delivery = d := by
  cases o
  case acquire =>
    simp only [call] at h
    split at h <;> cases h
    exact .inl hf
  case submit =>
    simp only [call] at h
    split at h
    · split at h <;> cases h
      exact .inl hf
    · cases h
      exact .inl hf
  case addDoneCallback =>
    obtain ⟨r, -, rfl⟩ := Option.map_eq_some_iff.mp h
    exact .inl hf
  case callback =>
    simp only [call] at h
    split at h <;> cases h
    all_goals exact .inl hf
  case addCallbackThreadsafe schedule =>
    cases h
    unfold addCallback at hf
    split at hf
    · exact .inl hf
    · split at hf
      · exact (List.mem_append.mp hf).imp_right fun hf => by rw [List.mem_singleton.mp hf]
      · exact .inl hf
  all_goals
    cases h
    exact .inl hf

/-- A call on a channel is logged with what it found. -/
theorem call_logs (h : s.call self thread d answers o = some p) {e : ChannelCall}
    (he : e ∈ p.1.calls) : e ∈ s.calls ∨ e.thread = thread ∧
      ∃ ch, target o = some ch ∧ e.isOpen = s.loop.channelOpen ch := by
  have hlog : ∀ {x : ChannelCall} {ch : Nat}, e ∈ s.calls ++ [x] → x.thread = thread →
      x.isOpen = s.loop.channelOpen ch → target o = some ch →
      e ∈ s.calls ∨ e.thread = thread ∧
        ∃ ch, target o = some ch ∧ e.isOpen = s.loop.channelOpen ch := by
    intro x ch he hthread hopen htarget
    refine (List.mem_append.mp he).imp_right fun he => ?_
    rw [List.mem_singleton.mp he]
    exact ⟨hthread, ch, htarget, hopen⟩
  cases o
  case acquire =>
    simp only [call] at h
    split at h <;> cases h
    exact .inl he
  case submit =>
    simp only [call] at h
    split at h
    · split at h <;> cases h
      exact .inl he
    · cases h
      exact .inl he
  case addDoneCallback =>
    obtain ⟨r, -, rfl⟩ := Option.map_eq_some_iff.mp h
    exact .inl he
  case callback =>
    simp only [call] at h
    split at h <;> cases h
    all_goals exact .inl he
  case addCallbackThreadsafe schedule =>
    cases h
    obtain ⟨scheduled, heq⟩ := exists_addCallback s d schedule
    rw [heq] at he
    exact .inl he
  case basicPublish | basicAck | basicNack =>
    cases h
    exact hlog he rfl rfl rfl
  all_goals
    cases h
    exact .inl he

end

end Offload

end MqAdapters
