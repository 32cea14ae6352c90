import MqAdapters.Pika
import MqAdapters.Python.Value
import MqAdapters.RetryPolicy
import MqAdapters.Theory.Batching
import MqAdapters.Theory.Machine

/-!
# The async sender

`AsyncSender` as a machine: any number of calls of `send`, `start` and `stop` as
tasks of one event loop, and the task that flushes confirms periodically.

* A step is what one task does between two awaits; nothing comes between.
* The action of a task says whether the call it awaits raises (a connection
  factory, `channel()`, `declare_exchange`, a `close`), and what
  `random.uniform` draws.
* A publish future is settled by `settle`, at any time after the publish.  A
  call of `asyncio.gather` is a batch of futures; it ends by `gathered`, with the
  first failure or when all have succeeded, and the task that awaits it goes on
  in a later step.  Cancelling that task before cancels the futures.
* `asyncio.sleep` ends when the clock has reached its end.  Nobody but `stop`
  cancels a task.  Logging is left out.

`factoryCalls` records history and is read by nothing.
-/

namespace MqAdapters

open Python Theory

namespace AsyncSender

/-- The arguments of `AsyncSender.__init__` that later code reads, and the
`routing_key` of the destination. -/
structure Config where
  confirmDelivery : Bool
  retryPolicy : RetryPolicy
  confirmBatchSize : Int
  confirmFlushInterval : ℚ
  routingKey : Option String

namespace Config

variable (self : Config)

def batchSize : Nat := (max 0 self.confirmBatchSize).toNat

def flushInterval : ℚ := max 0 self.confirmFlushInterval

/-- Confirms are collected into batches. -/
def batched : Bool := self.confirmDelivery && 0 < self.batchSize

/-- `routing_key or self._destination.get("routing_key") or ""`. -/
def routingKeyFor (routingKey : Option String) : String :=
  match routingKey, self.routingKey with
  | some rk, own => if rk = "" then own.getD "" else rk
  | none, own => own.getD ""

end Config

/-- One call of `exchange.publish`: the `send` it is for, and its arguments. -/
structure Publish where
  send : Nat
  exchange : Nat
  body : Bytes
  routingKey : String
  deriving DecidableEq

/-- A channel: the connection it was opened on, and whether it was closed itself.
An exchange is known by the channel it was declared on. -/
structure Channel where
  connection : Nat
  isOpen : Bool
  deriving DecidableEq

/-- Where `start` is, in the given attempt of `async_retry`. -/
inductive StartPc
  /-- `await self._connection_factory()` -/
  | factory (attempt : Nat)
  /-- `await self._conn.channel(...)` -/
  | channel (attempt : Nat) (conn : Nat)
  /-- `await self._channel.declare_exchange(...)` -/
  | declare (attempt : Nat) (channel : Nat)
  | sleep (attempt : Nat) (until_ : ℚ)
  deriving DecidableEq

/-- How far a call of `start` is. -/
inductive Starting
  | going (pc : StartPc)
  | returned
  | raised

/-- Where `send` is, in the given attempt of `async_retry`. -/
inductive SendPc
  /-- before its first step -/
  | begin
  /-- `await self.start()` -/
  | starting (attempt : Nat) (pc : StartPc)
  /-- `await self._flush_confirms()`, on the batch with the given number -/
  | gather (attempt : Nat) (batch : Nat)
  /-- `await publish_awaitable` -/
  | confirm (attempt : Nat) (future : Nat)
  | sleep (attempt : Nat) (until_ : ℚ)
  | returned
  | raised
  deriving DecidableEq

structure SendCall where
  body : Bytes
  routingKey : Option String
  pc : SendPc
  deriving DecidableEq

/-- Where `_flush_confirms_periodically` is. -/
inductive Flusher
  | begin
  | sleep (until_ : ℚ)
  | gather (batch : Nat)

/-- Where `stop` is. -/
inductive StopPc
  /-- before its first step -/
  | begin
  /-- `await self._flush_confirms()` -/
  | gather (batch : Nat)
  /-- `await self._channel.close()` -/
  | closeChannel (channel : Nat)
  /-- `await self._conn.close()`, after an exception or not -/
  | closeConnection (conn : Nat) (failed : Bool)
  | returned
  | raised
  deriving DecidableEq

end AsyncSender

open AsyncSender

/-- The sender and the tasks. -/
structure AsyncSender where
  /-- `self._conn` -/
  conn : Option Nat
  /-- `self._channel` -/
  channel : Option Nat
  /-- `self._exchange` -/
  exchange : Option Nat
  /-- the publish futures, `self._pending_confirms`, and the gathers -/
  confirms : Batching Publish
  /-- `self._confirm_flush_task`, unless it is done -/
  flusher : Option Flusher
  sends : List SendCall
  starts : List Starting
  stops : List StopPc
  clock : ℚ
  connections : Connections
  channels : List Channel
  factoryCalls : Nat

namespace AsyncSender

variable (self : Config)

def initial : AsyncSender where
  conn := none
  channel := none
  exchange := none
  confirms := .empty
  flusher := none
  sends := []
  starts := []
  stops := []
  clock := 0
  connections := []
  channels := []
  factoryCalls := 0

/-- `self._conn and not self._conn.is_closed`. -/
def connected (s : AsyncSender) : Bool := s.connections.usable s.conn

/-- A channel is open until it or its connection is closed. -/
def channelOpen (s : AsyncSender) (k : Nat) : Bool :=
  (s.channels[k]?).any fun ch => ch.isOpen && s.connections.isOpen ch.connection

def shutChannel (s : AsyncSender) (k : Nat) : AsyncSender :=
  { s with channels := s.channels.modify k fun ch => { ch with isOpen := false } }

/-- The `except` of `async_retry`: the end of the sleep before the next attempt,
or `none` if an exception leaves it. -/
def retryAt (s : AsyncSender) (attempt : Nat) (draw : ℚ) : Option ℚ :=
  if self.retryPolicy.maxAttempts.any fun n => n ≤ (attempt : Int) then none
  else match self.retryPolicy.delayForAttempt (attempt + 1) draw with
    | .error _ => none
    | .ok delay => some (s.clock + delay)

/-! ## `start` -/

/-- `_do_start`, up to its first await. -/
def callFactory (s : AsyncSender) (attempt : Nat) : AsyncSender × Starting :=
  ({ s with factoryCalls := s.factoryCalls + 1 }, .going (.factory attempt))

/-- An attempt of `_do_start` has raised. -/
def startFailed (s : AsyncSender) (attempt : Nat) (draw : ℚ) : AsyncSender × Starting :=
  match s.retryAt self attempt draw with
  | none => (s, .raised)
  | some t => (s, .going (.sleep attempt t))

/-- The end of `_do_start`: the flusher is started unless it runs. -/
def startFlusher (s : AsyncSender) : AsyncSender :=
  if self.confirmDelivery && 0 < self.flushInterval && 0 < self.batchSize then
    { s with flusher := some (s.flusher.getD .begin) }
  else s

/-- `start` goes on from an await that is over. -/
def startStep (s : AsyncSender) (raises : Bool) (draw : ℚ) :
    StartPc → Option (AsyncSender × Starting)
  | .factory attempt => some <|
    if raises then s.startFailed self attempt draw
    else ({ s with
      conn := some s.connections.fresh
      connections := s.connections.connect }, .going (.channel attempt s.connections.fresh))
  | .channel attempt c => some <|
    if raises then s.startFailed self attempt draw
    else ({ s with
      channel := some s.channels.length
      channels := s.channels ++ [⟨c, true⟩] }, .going (.declare attempt s.channels.length))
  | .declare attempt k => some <|
    if raises then s.startFailed self attempt draw
    else ({ s with exchange := some k }.startFlusher self, .returned)
  | .sleep attempt until_ =>
    if until_ ≤ s.clock then some (s.callFactory (attempt + 1)) else none

def startBegin (s : AsyncSender) : AsyncSender × Starting :=
  if s.connected then (s, .returned) else s.callFactory 1

/-! ## `send` -/

/-- The `i`-th call of `send` goes on at `pc`. -/
def sendAt (s : AsyncSender) (i : Nat) (pc : SendPc) : AsyncSender :=
  { s with sends := s.sends.modify i fun call => { call with pc := pc } }

/-- An attempt of `_do_publish` has raised. -/
def sendFailed (s : AsyncSender) (i attempt : Nat) (draw : ℚ) : AsyncSender :=
  match s.retryAt self attempt draw with
  | none => { s with channel := none, exchange := none, conn := none }.sendAt i .raised
  | some t => s.sendAt i (.sleep attempt t)

/-- `_flush_confirms`, with something to flush, up to its await. -/
def flushConfirms (s : AsyncSender) : AsyncSender := { s with confirms := s.confirms.hand }

/-- `_do_publish`, from the assertion on. -/
def publish (s : AsyncSender) (i : Nat) (call : SendCall) (attempt : Nat) (draw : ℚ) :
    AsyncSender :=
  match s.exchange with
  | none => s.sendFailed self i attempt draw
  | some exchange =>
    let p : Publish := ⟨i, exchange, call.body, self.routingKeyFor call.routingKey⟩
    if self.batched then
      let s := { s with confirms := s.confirms.add p }
      if self.batchSize ≤ s.confirms.collected.length then
        s.flushConfirms.sendAt i (.gather attempt s.confirms.batches.length)
      else s.sendAt i .returned
    else
      { s with confirms := s.confirms.alone p }.sendAt i (.confirm attempt s.confirms.items.length)

/-- `start` inside `send`, and what follows once it is over. -/
def sendStarting (s : AsyncSender) (i : Nat) (call : SendCall) (attempt : Nat) (draw : ℚ) :
    Starting → AsyncSender
  | .going pc => s.sendAt i (.starting attempt pc)
  | .returned => s.publish self i call attempt draw
  | .raised => s.sendFailed self i attempt draw

def doPublish (s : AsyncSender) (i : Nat) (call : SendCall) (attempt : Nat) (draw : ℚ) :
    AsyncSender :=
  if s.channel.isSome && s.exchange.isSome && s.connected then
    s.publish self i call attempt draw
  else
    s.startBegin.1.sendStarting self i call attempt draw s.startBegin.2

/-- `send` goes on once the gather has ended. -/
def sendGathered (s : AsyncSender) (i attempt : Nat) (draw : ℚ) : Verdict → AsyncSender
  | .ok => s.sendAt i .returned
  | .failed => s.sendFailed self i attempt draw
  | .cancelled => s.sendAt i .raised

/-- `send` goes on once its only future has ended. -/
def sendConfirmed (s : AsyncSender) (i attempt : Nat) (draw : ℚ) : Outcome → Option AsyncSender
  | .pending => none
  | .succeeded => some (s.sendAt i .returned)
  | .failed => some (s.sendFailed self i attempt draw)
  | .cancelled => some (s.sendAt i .raised)

/-- One step of the `i`-th call of `send`. -/
def send (s : AsyncSender) (i : Nat) (raises : Bool) (draw : ℚ) : Option AsyncSender :=
  (s.sends[i]?).bind fun call =>
    if !self.retryPolicy.draws draw then none
    else match call.pc with
      | .begin => some (s.doPublish self i call 1 draw)
      | .starting attempt pc => (s.startStep self raises draw pc).map fun p =>
        p.1.sendStarting self i call attempt draw p.2
      | .gather attempt b => (s.confirms.result b).map (s.sendGathered self i attempt draw)
      | .confirm attempt f => s.sendConfirmed self i attempt draw (s.confirms.outcome f)
      | .sleep attempt until_ =>
        if until_ ≤ s.clock then some (s.doPublish self i call (attempt + 1) draw) else none
      | .returned => none
      | .raised => none

/-! ## The flusher -/

/-- `while self._conn and not self._conn.is_closed`. -/
def flusherTest (s : AsyncSender) : AsyncSender :=
  { s with flusher := if s.connected then some (.sleep (s.clock + self.flushInterval)) else none }

/-- One step of the flusher; an exception of the flush is swallowed. -/
def flush (s : AsyncSender) : Option AsyncSender :=
  s.flusher.bind fun
    | .begin => some (s.flusherTest self)
    | .sleep until_ =>
      if until_ ≤ s.clock then some <|
        if s.confirms.collected = [] then s.flusherTest self
        else { s.flushConfirms with flusher := some (.gather s.confirms.batches.length) }
      else none
    | .gather b => (s.confirms.result b).map fun
      | .cancelled => { s with flusher := none }
      | _ => s.flusherTest self

/-- `self._confirm_flush_task.cancel()`. -/
def cancelFlusher (s : AsyncSender) : AsyncSender :=
  { s with
    flusher := none
    confirms := match s.flusher with
      | some (.gather b) => s.confirms.cancel b
      | _ => s.confirms }

/-! ## `stop` -/

/-- The `i`-th call of `stop` goes on at `pc`. -/
def stopAt (s : AsyncSender) (i : Nat) (pc : StopPc) : AsyncSender :=
  { s with stops := s.stops.set i pc }

def stopFinally (s : AsyncSender) (i : Nat) (failed : Bool) : AsyncSender :=
  let s := { s with channel := none, exchange := none }
  match s.conn with
  | none => s.stopAt i (if failed then .raised else .returned)
  | some c =>
    if s.connections.isOpen c then s.stopAt i (.closeConnection c failed)
    else { s with conn := none }.stopAt i (if failed then .raised else .returned)

/-- `stop`, once the confirms are flushed or that has failed. -/
def stopFlushed (s : AsyncSender) (i : Nat) : AsyncSender :=
  let s := s.cancelFlusher
  match s.channel with
  | none => s.stopFinally i false
  | some k => if s.channelOpen k then s.stopAt i (.closeChannel k) else s.stopFinally i false

/-- `stop` goes on once the gather has ended; only a cancellation is not
swallowed. -/
def stopGathered (s : AsyncSender) (i : Nat) : Verdict → AsyncSender
  | .cancelled => s.stopFinally i true
  | _ => s.stopFlushed i

/-- One step of the `i`-th call of `stop`. -/
def stop (s : AsyncSender) (i : Nat) (raises : Bool) : Option AsyncSender :=
  (s.stops[i]?).bind fun
    | .begin => some <|
      if s.confirms.collected = [] then s.stopFlushed i
      else s.flushConfirms.stopAt i (.gather s.confirms.batches.length)
    | .gather b => (s.confirms.result b).map (s.stopGathered i)
    | .closeChannel k => some <|
      if raises then s.stopFinally i true else (s.shutChannel k).stopFinally i false
    | .closeConnection c failed => some <|
      if raises then s.stopAt i .raised
      else { s with conn := none, connections := s.connections.close c }.stopAt i
        (if failed then .raised else .returned)
    | .returned => none
    | .raised => none

/-! ## The machine -/

inductive Action
  | callSend (body : Bytes) (routingKey : Option String)
  | send (i : Nat) (raises : Bool) (draw : ℚ)
  | callStart
  | start (i : Nat) (raises : Bool) (draw : ℚ)
  | callStop
  | stop (i : Nat) (raises : Bool)
  | flush
  /-- a publish future ends -/
  | settle (future : Nat) (ok : Bool)
  /-- a gather ends -/
  | gathered (batch : Nat)
  | tick (dt : ℚ)
  | lose (c : Nat)
  | loseChannel (k : Nat)

/-- One step of the `i`-th direct call of `start`. -/
def start (s : AsyncSender) (i : Nat) (raises : Bool) (draw : ℚ) : Option AsyncSender :=
  (s.starts[i]?).bind fun
    | .going pc =>
      if !self.retryPolicy.draws draw then none
      else (s.startStep self raises draw pc).map fun p =>
        { p.1 with starts := p.1.starts.set i p.2 }
    | .returned => none
    | .raised => none

def step (s : AsyncSender) : Action → Option AsyncSender
  | .callSend body routingKey => some { s with sends := s.sends ++ [⟨body, routingKey, .begin⟩] }
  | .send i raises draw => s.send self i raises draw
  | .callStart => some { s.startBegin.1 with starts := s.starts ++ [s.startBegin.2] }
  | .start i raises draw => s.start self i raises draw
  | .callStop => some { s with stops := s.stops ++ [.begin] }
  | .stop i raises => s.stop i raises
  | .flush => s.flush self
  | .settle f ok => some { s with confirms := s.confirms.settle f ok }
  | .gathered b => (s.confirms.close b).map fun confirms => { s with confirms := confirms }
  | .tick dt => if 0 ≤ dt then some { s with clock := s.clock + dt } else none
  | .lose c => some { s with connections := s.connections.close c }
  | .loseChannel k => some (s.shutChannel k)

def machine : Machine AsyncSender Action where
  init := initial
  step := step self

theorem tick_cases {self : Config} {s t : AsyncSender} {dt : ℚ}
    (h : s.step self (.tick dt) = some t) : 0 ≤ dt ∧ t = { s with clock := s.clock + dt } := by
  simp only [step] at h
  split at h
  · next hdt => exact ⟨hdt, (Option.some.inj h).symm⟩
  · cases h

end AsyncSender

end MqAdapters
