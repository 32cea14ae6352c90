import Mathlib.Algebra.Order.Field.Rat
import MqAdapters.Delivery.Async
import MqAdapters.Pika
import MqAdapters.Theory.Lists
import MqAdapters.Theory.Machine
import MqAdapters.Theory.Semaphore

/-!
# The async listener

`AsyncListener` as a machine: any number of calls of `start` and `stop`, and one
task for each delivery, on one event loop.

* A step of `start` and `stop` is what it does between two awaits.  A task that
  runs `_run_handler` makes one call in a step, so the tasks are interleaved at
  every await and more finely.
* The action says whether the awaited call raises.  A call on a channel also raises
  if the channel is not open.  What the callback and the broker answer to a
  handler is in the action as well; the fields and the semaphore answer as they
  are.
* A delivery can come in as soon as `consume` is called on the channel, and after
  the consumer is cancelled.
* `asyncio.wait_for` cancels the tasks it waits for when its time is over, and then
  waits on.  A task that is cancelled before its first step never starts, and one
  that waits for the semaphore gets no permit; elsewhere the awaited call answers.
* A task leaves `self._in_flight` in the step in which it ends.  Nobody cancels
  `start` or `stop`.  Logging and the arguments of the declarations are left out.
-/

namespace MqAdapters

open Python Theory

namespace AsyncListener

/-- The arguments of `AsyncListener.__init__` that later code reads. -/
structure Config where
  settings : Settings
  prefetchCount : Int
  maxConcurrency : Option Int
  shutdownTimeout : ℚ

namespace Config

variable (self : Config)

/-- `self._prefetch_count and self._prefetch_count > -1`. -/
def prefetches : Bool := self.prefetchCount != 0 && -1 < self.prefetchCount

/-- `self._max_concurrency`. -/
def concurrency : Nat :=
  match self.maxConcurrency with
  | none => if self.prefetches then self.prefetchCount.toNat else 100
  | some n => (max 1 n).toNat

end Config

/-- A channel: the connection it was opened on, and whether it was closed itself.
A queue is known by the channel it was declared on. -/
structure Channel where
  connection : Nat
  isOpen : Bool
  deriving DecidableEq

/-- A consumer on a channel, and whether it is registered. -/
structure Consumer where
  channel : Nat
  registered : Bool
  deriving DecidableEq

/-- Where `start` is. -/
inductive StartPc
  /-- `await self._connection_factory()` -/
  | factory
  /-- `await self._conn.channel()` -/
  | channel (conn : Nat)
  /-- `await self._channel.set_qos(...)` -/
  | setQos (channel : Nat)
  /-- `await self._channel.declare_exchange(...)` -/
  | declareExchange (channel : Nat)
  /-- `await self._channel.declare_queue(...)` -/
  | declareQueue (channel : Nat)
  /-- `await q.bind(...)` -/
  | bind (queue : Nat)
  /-- `await q.consume(...)` -/
  | consume (queue : Nat)
  deriving DecidableEq

/-- How far a call of `start` is. -/
inductive Starting
  | going (pc : StartPc)
  | returned
  | raised
  deriving DecidableEq

/-- Where `stop` is. -/
inductive StopPc
  /-- `await self._queue.cancel(self._consumer_tag)` -/
  | cancelConsumer (queue tag : Nat)
  /-- `await asyncio.wait_for(...)` -/
  | wait (tasks : List Nat) (until_ : ℚ)
  /-- the same, after its time is over -/
  | waitCancelled (tasks : List Nat)
  /-- `await self._channel.close()` -/
  | closeChannel (channel : Nat)
  /-- `await self._conn.close()` -/
  | closeConnection (conn : Nat)
  | returned
  deriving DecidableEq

/-- What a handler has of a semaphore. -/
inductive Permit
  | none
  | waiting (semaphore : Nat)
  | held (semaphore : Nat)
  deriving DecidableEq

/-- A task that runs `_run_handler`: the calls it has made, what is left of it, and
whether it was cancelled. -/
structure Handler where
  message : IncomingMessage
  past : List Call
  rest : Code Unit
  permit : Permit
  cancelled : Bool

/-- The call `o` is answered. -/
def Handler.answer (h : Handler) (o : Op) (k : o.Ans → Code Unit) (r : o.Ans) : Handler :=
  { h with past := h.past ++ [⟨o, r⟩], rest := k r }

end AsyncListener

open AsyncListener

/-- The listener and the tasks. -/
structure AsyncListener where
  /-- `self._conn` -/
  conn : Option Nat
  /-- `self._channel` -/
  channel : Option Nat
  /-- `self._queue` -/
  queue : Option Nat
  /-- `self._consumer_tag` -/
  consumerTag : Option Nat
  /-- `self._semaphore` -/
  semaphore : Option Nat
  /-- `self._in_flight` -/
  inFlight : List Nat
  connections : Connections
  channels : List AsyncListener.Channel
  consumers : List Consumer
  semaphores : List (Semaphore Nat)
  handlers : List Handler
  starts : List Starting
  stops : List StopPc
  clock : ℚ

namespace AsyncListener

variable (self : Config)

def initial : AsyncListener where
  conn := none
  channel := none
  queue := none
  consumerTag := none
  semaphore := none
  inFlight := []
  connections := []
  channels := []
  consumers := []
  semaphores := []
  handlers := []
  starts := []
  stops := []
  clock := 0

/-- `self._conn and not self._conn.is_closed`. -/
def connected (s : AsyncListener) : Bool := s.connections.usable s.conn

/-- A channel is open until it or its connection is closed. -/
def channelOpen (s : AsyncListener) (k : Nat) : Bool :=
  (s.channels[k]?).any fun ch => ch.isOpen && s.connections.isOpen ch.connection

def shutChannel (s : AsyncListener) (k : Nat) : AsyncListener :=
  { s with channels := s.channels.modify k fun ch => { ch with isOpen := false } }

def modifySemaphore (s : AsyncListener) (g : Nat) (f : Semaphore Nat → Semaphore Nat) :
    AsyncListener :=
  { s with semaphores := s.semaphores.modify g f }

/-! ## `start` -/

/-- A call of a method of `self._channel`. -/
def onChannel (s : AsyncListener) (pc : Nat → StartPc) : Starting :=
  match s.channel with
  | none => .raised
  | some k => .going (pc k)

/-- `start` goes on from an await that is over. -/
def startStep (s : AsyncListener) (raises : Bool) : StartPc → AsyncListener × Starting
  | .factory =>
    if raises then (s, .raised)
    else ({ s with
      conn := some s.connections.fresh
      connections := s.connections.connect }, .going (.channel s.connections.fresh))
  | .channel c =>
    if raises || !s.connections.isOpen c then (s, .raised)
    else
      let s := { s with
        channel := some s.channels.length
        channels := s.channels ++ [⟨c, true⟩] }
      (s, s.onChannel (if self.prefetches then .setQos else .declareExchange))
  | .setQos k =>
    if raises || !s.channelOpen k then (s, .raised) else (s, s.onChannel .declareExchange)
  | .declareExchange k =>
    if raises || !s.channelOpen k then (s, .raised) else (s, s.onChannel .declareQueue)
  | .declareQueue k =>
    if raises || !s.channelOpen k then (s, .raised) else (s, .going (.bind k))
  | .bind k =>
    if raises || !s.channelOpen k then (s, .raised)
    else ({ s with
      queue := some k
      semaphore := some s.semaphores.length
      semaphores := s.semaphores ++ [⟨self.concurrency, []⟩] }, .going (.consume k))
  | .consume k =>
    if raises || !s.channelOpen k then (s, .raised)
    else ({ s with
      consumerTag := some s.consumers.length
      consumers := s.consumers ++ [⟨k, true⟩] }, .returned)

def startBegin (s : AsyncListener) : Starting :=
  if s.connected then .returned else .going .factory

/-- One step of the `i`-th call of `start`. -/
def start (s : AsyncListener) (i : Nat) (raises : Bool) : Option AsyncListener :=
  (s.starts[i]?).bind fun
    | .going pc =>
      let p := s.startStep self raises pc
      some { p.1 with starts := p.1.starts.set i p.2 }
    | .returned => none
    | .raised => none

theorem start_cases {self : Config} {s t : AsyncListener} {i : Nat} {raises : Bool}
    (ht : s.start self i raises = some t) : ∃ pc p, s.starts[i]? = some (.going pc) ∧
      s.startStep self raises pc = p ∧ t = { p.1 with starts := p.1.starts.set i p.2 } := by
  obtain ⟨starting, hi, ht⟩ := Option.bind_eq_some_iff.mp ht
  cases starting with
  | going pc => exact ⟨pc, _, hi, rfl, (Option.some.inj ht).symm⟩
  | returned | raised => cases ht

/-! ## `_run_handler` and `_on_message` -/

/-- The `i`-th handler goes on as `h`. -/
def goOn (s : AsyncListener) (i : Nat) (h : Handler) : AsyncListener :=
  { s with
    handlers := s.handlers.set i h
    inFlight := if h.rest.done then s.inFlight.erase i else s.inFlight }

/-- `await self._semaphore.acquire()`, in the step that calls it. -/
def acquire (s : AsyncListener) (i : Nat) (h : Handler) (k : Op.acquire.Ans → Code Unit) :
    Option AsyncListener :=
  match s.semaphore with
  | none => some (s.goOn i (h.answer .acquire k (.error .exception)))
  | some g => (s.semaphores[g]?).map fun sem =>
    if sem.locked then
      (s.modifySemaphore g (.park · i)).goOn i { h with permit := .waiting g }
    else
      (s.modifySemaphore g .take).goOn i
        { h.answer .acquire k (.ok ()) with permit := .held g }

/-- The same, in the step in which the wait for the semaphore `g` ends. -/
def acquired (s : AsyncListener) (i : Nat) (h : Handler) (g : Nat)
    (k : Op.acquire.Ans → Code Unit) : Option AsyncListener :=
  let cancelled : Handler :=
    { h.answer .acquire k (.error .baseException) with permit := .none }
  (s.semaphores[g]?).bind fun sem =>
    if h.cancelled then
      if sem.woken i then some ((s.modifySemaphore g (.giveBack · i)).goOn i cancelled)
      else some ((s.modifySemaphore g .wakeAll).goOn i cancelled)
    else if sem.woken i then
      some ((s.modifySemaphore g (.resume · i)).goOn i
        { h.answer .acquire k (.ok ()) with permit := .held g })
    else none

/-- `self._semaphore.release()`. -/
def release (s : AsyncListener) (i : Nat) (h : Handler) (k : Op.release.Ans → Code Unit) :
    AsyncListener :=
  match s.semaphore with
  | none => s.goOn i { h.answer .release k (.error .exception) with permit := .none }
  | some g => (s.modifySemaphore g .release).goOn i
      { h.answer .release k (.ok ()) with permit := .none }

/-- The `i`-th handler makes the call `o` and goes on with `k`. -/
def call (s : AsyncListener) (i : Nat) (h : Handler) (answers : ∀ o : Op, o.Ans) :
    (o : Op) → (o.Ans → Code Unit) → Option AsyncListener
  | .semaphoreIsSet, k => some (s.goOn i (h.answer .semaphoreIsSet k s.semaphore.isSome))
  | .channelIsSet, k => some (s.goOn i (h.answer .channelIsSet k s.channel.isSome))
  | .acquire, k => match h.permit with
    | .waiting g => s.acquired i h g k
    | _ => s.acquire i h k
  | .release, k => some (s.release i h k)
  | o, k => some (s.goOn i (h.answer o k (answers o)))

/-- One step of the `i`-th handler. -/
def handle (s : AsyncListener) (i : Nat) (answers : ∀ o : Op, o.Ans) : Option AsyncListener :=
  (s.handlers[i]?).bind fun h => match h.rest with
    | .call o k =>
      if h.cancelled && h.past.isEmpty then
        some (s.goOn i { h with rest := Program.raise .baseException })
      else s.call i h answers o k
    | .pure _ => none
    | .raise _ => none

/-- `consume` is called on the channel, or was. -/
def consumes (s : AsyncListener) (k : Nat) : Bool :=
  s.consumers.any (·.channel == k) || s.starts.contains (.going (.consume k))

def onMessage (s : AsyncListener) (message : IncomingMessage) : AsyncListener :=
  { s with
    handlers := s.handlers ++ [⟨message, [], runHandler self.settings message, .none, false⟩]
    inFlight := s.inFlight ++ [s.handlers.length] }

/-- `task.cancel()`. -/
def cancelHandler (s : AsyncListener) (i : Nat) : AsyncListener :=
  match s.handlers[i]? with
  | none => s
  | some h =>
    if h.rest.done then s
    else
      let s := { s with handlers := s.handlers.set i { h with cancelled := true } }
      match h.permit with
      | .waiting g => s.modifySemaphore g (.drop · i)
      | _ => s

/-! ## `stop` -/

def allDone (s : AsyncListener) (tasks : List Nat) : Bool :=
  tasks.all fun i => (s.handlers[i]?).all fun h => h.rest.done

/-- The end of `stop`, once the channel is closed. -/
def stopChannelClosed (s : AsyncListener) : AsyncListener × StopPc :=
  let s := { s with channel := none }
  match s.conn with
  | none => (s, .returned)
  | some c =>
    if s.connections.isOpen c then (s, .closeConnection c) else ({ s with conn := none }, .returned)

def stopFinally (s : AsyncListener) : AsyncListener × StopPc :=
  let s := { s with consumerTag := none, inFlight := [], semaphore := none }
  match s.channel with
  | none => s.stopChannelClosed
  | some k => if s.channelOpen k then (s, .closeChannel k) else s.stopChannelClosed

/-- `stop`, once the consumer is cancelled or that has failed. -/
def stopCancelled (s : AsyncListener) : AsyncListener × StopPc :=
  if s.inFlight = [] then s.stopFinally
  else (s, .wait s.inFlight (s.clock + self.shutdownTimeout))

def stopBegin (s : AsyncListener) : AsyncListener × StopPc :=
  match s.queue, s.consumerTag with
  | some k, some tag => (s, .cancelConsumer k tag)
  | _, _ => s.stopCancelled self

/-- `queue.cancel(tag)`. -/
def cancelConsumer (s : AsyncListener) (k tag : Nat) : AsyncListener :=
  { s with consumers := s.consumers.modify tag fun consumer =>
    { consumer with registered := consumer.registered && consumer.channel != k } }

/-- `stop` goes on from an await that is over. -/
def stopStep (s : AsyncListener) (raises : Bool) : StopPc → Option (AsyncListener × StopPc)
  | .cancelConsumer k tag => some <|
    (if raises || !s.channelOpen k then s else s.cancelConsumer k tag).stopCancelled self
  | .wait tasks until_ =>
    if s.allDone tasks then some s.stopFinally
    else if until_ ≤ s.clock then some (tasks.foldl cancelHandler s, .waitCancelled tasks)
    else none
  | .waitCancelled tasks => if s.allDone tasks then some s.stopFinally else none
  | .closeChannel k => some (if raises then s else s.shutChannel k).stopChannelClosed
  | .closeConnection c => some ({ s with
      conn := none
      connections := if raises then s.connections else s.connections.close c }, .returned)
  | .returned => none

/-- One step of the `i`-th call of `stop`. -/
def stop (s : AsyncListener) (i : Nat) (raises : Bool) : Option AsyncListener :=
  (s.stops[i]?).bind fun pc => (s.stopStep self raises pc).map fun p =>
    { p.1 with stops := p.1.stops.set i p.2 }

theorem stop_cases {self : Config} {s t : AsyncListener} {i : Nat} {raises : Bool}
    (ht : s.stop self i raises = some t) : ∃ pc p, s.stops[i]? = some pc ∧
      s.stopStep self raises pc = some p ∧ t = { p.1 with stops := p.1.stops.set i p.2 } := by
  obtain ⟨pc, hi, ht⟩ := Option.bind_eq_some_iff.mp ht
  obtain ⟨p, hstep, rfl⟩ := Option.map_eq_some_iff.mp ht
  exact ⟨pc, p, hi, hstep, rfl⟩

/-! ## The machine -/

inductive Action
  | callStart
  | start (i : Nat) (raises : Bool)
  | callStop
  | stop (i : Nat) (raises : Bool)
  | deliver (message : IncomingMessage)
  | handle (i : Nat) (answers : ∀ o : Op, o.Ans)
  | tick (dt : ℚ)
  | lose (c : Nat)
  | loseChannel (k : Nat)

def step (s : AsyncListener) : Action → Option AsyncListener
  | .callStart => some { s with starts := s.starts ++ [s.startBegin] }
  | .start i raises => s.start self i raises
  | .callStop =>
    let p := s.stopBegin self
    some { p.1 with stops := p.1.stops ++ [p.2] }
  | .stop i raises => s.stop self i raises
  | .deliver message => if s.consumes message.channel then some (s.onMessage self message) else none
  | .handle i answers => s.handle i answers
  | .tick dt => if 0 ≤ dt then some { s with clock := s.clock + dt } else none
  | .lose c => some { s with connections := s.connections.close c }
  | .loseChannel k => some (s.shutChannel k)

def machine : Machine AsyncListener Action where
  init := initial
  step := step self

end AsyncListener

end MqAdapters
