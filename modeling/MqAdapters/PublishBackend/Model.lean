import MqAdapters.Pika
import MqAdapters.Python.Value
import MqAdapters.RetryPolicy
import MqAdapters.Stats
import MqAdapters.Theory.Machine

/-!
# The sync publish backend

`SyncPublishBackend` as a machine: the I/O thread that runs `_run`, a call of
`start`, and any number of calls of `stop` and `publish`, all interleaved.

* A step is what one thread does between two points at which another thread, or
  its surroundings, can make a difference: a read of the stop event, a queue
  operation, a call into pika.
* The action of the I/O thread says whether the call it makes raises, and what
  `random.uniform` draws.  Time passes by `tick`; a connection can be lost at
  any moment by `lose`.
* `queue.Queue` is a list, first in first out.  `task_done` is left out: nobody
  joins the queue.  Logging is left out.

The fields `accepted`, `passed` and `StopCall.mark` record history and are read
by nothing.
-/

namespace MqAdapters

open Python Theory

structure PublishRequest where
  body : Bytes
  exchange : String
  routingKey : String
  deriving DecidableEq

namespace PublishBackend

/-- The arguments of `SyncPublishBackend.__init__` that later code reads. -/
structure Config where
  exchange : String
  defaultRoutingKey : String
  channels : Int
  confirmDelivery : Bool
  queueMaxsize : Int
  heartbeatInterval : ℚ
  reconnectRetryPolicy : RetryPolicy

namespace Config

variable (self : Config)

/-- `self._channels`. -/
def poolSize : Nat := (max 1 self.channels).toNat

/-- The queue is bounded and holds as many items as it may. -/
def full {α : Type} (q : List α) : Bool :=
  0 < (max 0 self.queueMaxsize).toNat && (max 0 self.queueMaxsize).toNat ≤ q.length

/-- `self._heartbeat_interval`. -/
def heartbeat : ℚ := max 0 self.heartbeatInterval

/-- The request that `publish` puts into the queue. -/
def request (body : Bytes) (routingKey : Option String) : PublishRequest where
  body := body
  exchange := self.exchange
  routingKey := match routingKey with
    | some rk => if rk = "" then self.defaultRoutingKey else rk
    | none => self.defaultRoutingKey

end Config

/-- What the loop holds after it waited for an item. -/
inductive Item
  | heartbeat
  | sentinel
  | request (r : PublishRequest)

/-- Why a thread has left `_run`. -/
inductive Exit
  | stopEvent
  | sentinel
  | escaped (e : DelayError)
  deriving DecidableEq

/-- A channel: the connection it was opened on, and its number. -/
structure Channel where
  connection : Nat
  number : Nat
  deriving DecidableEq

/-- Where the I/O thread is in `_run`. -/
inductive Pc
  /-- `if self._stop_event.is_set()` -/
  | top
  /-- `_ensure_connection_and_channels`, at its first test -/
  | connect
  /-- at its `while` -/
  | openChannels
  /-- at `ch.confirm_delivery()` -/
  | confirm (ch : Channel)
  /-- `self._reconnect_failures = 0` and the choice of the timeout -/
  | connected
  /-- in `self._queue.get`, until the deadline -/
  | get (timeout : Option ℚ) (deadline : Option ℚ)
  /-- `_pump_io_if_due` -/
  | pump (item : Item)
  | serve (item : Item)
  /-- `except Exception` -/
  | handler
  /-- in `time.sleep` -/
  | sleep (until_ : ℚ)
  /-- after the loop, before the cleanup -/
  | cleanup (exit : Exit)
  | dead (exit : Exit)

/-- The I/O thread: where it is, and the local variables of `_run`. -/
structure Thread where
  pc : Pc
  conn : Option Nat
  channels : List Channel
  chIndex : Nat
  nextHeartbeat : ℚ

def Thread.alive (th : Thread) : Bool :=
  match th.pc with
  | .dead _ => false
  | _ => true

/-- Where a call of `stop` is. -/
inductive StopPc
  /-- `if self._stop_event.is_set()` -/
  | check
  | set
  | putNowait
  /-- in `self._queue.put(None, timeout=1)` -/
  | put (deadline : ℚ)
  | wait
  /-- in `self._thread.join(timeout=10)`, on the thread with the given number -/
  | join (thread : Nat) (deadline : ℚ)

structure StopCall where
  pc : StopPc
  wait : Bool
  /-- how many requests had been accepted when `stop` was called -/
  mark : Nat

/-- Where a call of `start` is, once it has found no live thread. -/
inductive Starting
  | clear
  | spawn
  deriving DecidableEq

/-- One `basic_publish`. -/
structure PublishCall where
  request : PublishRequest
  channel : Channel
  raised : Bool

end PublishBackend

open PublishBackend

/-- The backend and the calls under way. -/
structure PublishBackend where
  queue : List (Option PublishRequest)
  stopEvent : Bool
  /-- `self._thread` -/
  thread : Option Thread
  connectionsCreated : Nat
  channelsCreated : Nat
  reconnectFailures : Nat
  stats : Stats
  starting : Option Starting
  stopping : List StopCall
  publishing : List PublishRequest
  /-- how many threads have been started -/
  threads : Nat
  clock : ℚ
  connections : Connections
  /-- how often `process_data_events` was called -/
  pumped : Nat
  accepted : List PublishRequest
  passed : List PublishCall

namespace PublishBackend

variable (self : Config)

def initial : PublishBackend where
  queue := []
  stopEvent := false
  thread := none
  connectionsCreated := 0
  channelsCreated := 0
  reconnectFailures := 0
  stats := Stats.zero
  starting := none
  stopping := []
  publishing := []
  threads := 0
  clock := 0
  connections := []
  pumped := 0
  accepted := []
  passed := []

/-- `self._thread and self._thread.is_alive()`. -/
def alive (s : PublishBackend) : Bool := s.thread.any Thread.alive

/-- The I/O thread goes on at `pc`. -/
def goto (s : PublishBackend) (th : Thread) (pc : Pc) : PublishBackend :=
  { s with thread := some { th with pc := pc } }

/-! ## The I/O thread -/

/-- The first half of `_ensure_connection_and_channels`. -/
def connect (s : PublishBackend) (th : Thread) (raises : Bool) : PublishBackend :=
  if s.connections.usable th.conn then s.goto th .openChannels
  else if raises then s.goto th .handler
  else { s with
    connections := s.connections.connect
    connectionsCreated := s.connectionsCreated + 1
    stats := s.stats.incConnectionsOpened
    thread := some { th with
      pc := .openChannels
      conn := some s.connections.fresh
      channels := []
      chIndex := 0 } }

/-- One round of its `while`, up to `ch.confirm_delivery()`. -/
def openChannels (s : PublishBackend) (th : Thread) (raises : Bool) : PublishBackend :=
  if th.channels.length < self.poolSize then
    if raises then s.goto th .handler
    else
      let ch : Channel := ⟨th.conn.getD 0, s.channelsCreated⟩
      let s := { s with channelsCreated := s.channelsCreated + 1 }
      if self.confirmDelivery then s.goto th (.confirm ch)
      else s.goto { th with channels := th.channels ++ [ch] } .openChannels
  else s.goto th .connected

/-- `ch.confirm_delivery()`; the channel is used even if that raised. -/
def confirm (s : PublishBackend) (th : Thread) (ch : Channel) (raises : Bool) : PublishBackend :=
  let s := if raises then { s with stats := s.stats.incPublishFailed } else s
  s.goto { th with channels := th.channels ++ [ch] } .openChannels

/-- After a successful connect: how long the thread may wait for a request. -/
def connected (s : PublishBackend) (th : Thread) : PublishBackend :=
  let s := { s with reconnectFailures := 0 }
  if 0 < self.heartbeat then
    let timeout := max 0 (th.nextHeartbeat - s.clock)
    s.goto th (.get (some timeout) (some (s.clock + timeout)))
  else s.goto th (.get none none)

/-- `self._queue.get`, which waits while the queue is empty. -/
def get (s : PublishBackend) (th : Thread) (deadline : Option ℚ) : Option PublishBackend :=
  match s.queue with
  | some r :: q => some ({ s with queue := q }.goto th (.pump (.request r)))
  | none :: q => some ({ s with queue := q }.goto th (.pump .sentinel))
  | [] =>
    if deadline.any fun t => t ≤ s.clock then some (s.goto th (.pump .heartbeat)) else none

/-- `_pump_io_if_due`; an exception of `process_data_events` is swallowed. -/
def pump (s : PublishBackend) (th : Thread) (item : Item) : PublishBackend :=
  if self.heartbeat ≤ 0 then s.goto th (.serve item)
  else if s.clock < th.nextHeartbeat then s.goto th (.serve item)
  else
    let s := if s.connections.usable th.conn then { s with pumped := s.pumped + 1 } else s
    s.goto { th with nextHeartbeat := s.clock + self.heartbeat } (.serve item)

/-- What the loop does with the item. -/
def serve (s : PublishBackend) (th : Thread) (item : Item) (raises : Bool) : PublishBackend :=
  match item with
  | .heartbeat => s.goto th .top
  | .sentinel => s.goto th (.cleanup .sentinel)
  | .request r =>
    match th.channels[th.chIndex % th.channels.length]? with
    -- `channels[ch_index % len(channels)]` raises on an empty pool
    | none => s.goto th .handler
    | some ch =>
      let call : PublishCall := ⟨r, ch, raises⟩
      let s := { s with passed := s.passed ++ [call] }
      let th := { th with chIndex := th.chIndex + 1 }
      if raises then { s with stats := s.stats.incPublishFailed }.goto th .handler
      else { s with stats := s.stats.incPublished }.goto th .top

/-- The `except` handler, up to the sleep. -/
def handler (s : PublishBackend) (th : Thread) (draw : ℚ) : PublishBackend :=
  let s := { s with
    reconnectFailures := s.reconnectFailures + 1
    stats := s.stats.incReconnectAttempts }
  match self.reconnectRetryPolicy.pause (s.reconnectFailures + 1) draw with
  | .error e => s.goto th (.dead (.escaped e))
  | .ok delay => s.goto th (.sleep (s.clock + delay))

/-- `conn.close()` with its counter. -/
def closeConnection (s : PublishBackend) (conn : Option Nat) (raises : Bool) : PublishBackend :=
  match conn with
  | none => s
  | some c =>
    if s.connections.isOpen c then { s with
      connections := s.connections.close c
      stats := if raises then s.stats else s.stats.incConnectionsClosed }
    else s

/-- The rest of the `except` handler. -/
def wake (s : PublishBackend) (th : Thread) (until_ : ℚ) (raises : Bool) :
    Option PublishBackend :=
  if until_ ≤ s.clock then
    let s := s.closeConnection th.conn raises
    some (s.goto { th with
      conn := none
      channels := []
      nextHeartbeat := s.clock + self.heartbeat } .top)
  else none

/-- One step of `_run`.  `raises` says whether the call it makes raises. -/
def io (s : PublishBackend) (th : Thread) (raises : Bool) (draw : ℚ) : Option PublishBackend :=
  match th.pc with
  | .top => some (s.goto th (if s.stopEvent then .cleanup .stopEvent else .connect))
  | .connect => some (s.connect th raises)
  | .openChannels => some (s.openChannels self th raises)
  | .confirm ch => some (s.confirm th ch raises)
  | .connected => some (s.connected self th)
  | .get _ deadline => s.get th deadline
  | .pump item => some (s.pump self th item)
  | .serve item => some (s.serve th item raises)
  | .handler => if self.reconnectRetryPolicy.draws draw then some (s.handler self th draw) else none
  | .sleep until_ => s.wake self th until_ raises
  | .cleanup exit => some ((s.closeConnection th.conn raises).goto th (.dead exit))
  | .dead _ => none

/-! ## The calls -/

/-- `start` finds a live thread and returns, or goes on.  One call of `start` is
under way at a time. -/
def callStart (s : PublishBackend) : Option PublishBackend :=
  match s.starting with
  | some _ => none
  | none => some (if s.alive then s else { s with starting := some .clear })

def start (s : PublishBackend) : Option PublishBackend :=
  match s.starting with
  | none => none
  | some .clear => some { s with stopEvent := false, starting := some .spawn }
  | some .spawn => some { s with
      starting := none
      threads := s.threads + 1
      thread := some ⟨.top, none, [], 0, s.clock⟩ }

def callStop (s : PublishBackend) (wait : Bool) : PublishBackend :=
  { s with stopping := s.stopping ++ [⟨.check, wait, s.accepted.length⟩] }

/-- The `i`-th call of `stop` goes on at `pc`. -/
def stopAt (s : PublishBackend) (i : Nat) (call : StopCall) (pc : StopPc) : PublishBackend :=
  { s with stopping := s.stopping.set i { call with pc := pc } }

/-- The `i`-th call of `stop` returns. -/
def stopDone (s : PublishBackend) (i : Nat) : PublishBackend :=
  { s with stopping := s.stopping.eraseIdx i }

/-- One step of the `i`-th call of `stop`. -/
def stop (s : PublishBackend) (i : Nat) : Option PublishBackend :=
  (s.stopping[i]?).bind fun call =>
    match call.pc with
    | .check => some (if s.stopEvent then s.stopDone i else s.stopAt i call .set)
    | .set => some ({ s with stopEvent := true }.stopAt i call .putNowait)
    | .putNowait =>
      some (if self.full s.queue then s.stopAt i call (.put (s.clock + 1))
        else { s with queue := s.queue ++ [none] }.stopAt i call .wait)
    | .put deadline =>
      if !self.full s.queue then
        some ({ s with queue := s.queue ++ [none] }.stopAt i call .wait)
      else if deadline ≤ s.clock then some (s.stopAt i call .wait)
      else none
    | .wait =>
      some (if call.wait && s.thread.isSome then s.stopAt i call (.join s.threads (s.clock + 10))
        else s.stopDone i)
    | .join thread deadline =>
      if s.threads ≠ thread || !s.alive || deadline ≤ s.clock then some (s.stopDone i) else none

def callPublish (s : PublishBackend) (body : Bytes) (routingKey : Option String) :
    PublishBackend :=
  { s with publishing := s.publishing ++ [self.request body routingKey] }

/-- The `i`-th call of `publish` puts its request into the queue and returns. -/
def publish (s : PublishBackend) (i : Nat) : Option PublishBackend :=
  (s.publishing[i]?).bind fun r =>
    if self.full s.queue then none
    else some { s with
      publishing := s.publishing.eraseIdx i
      queue := s.queue ++ [some r]
      accepted := s.accepted ++ [r] }

inductive Action
  | io (raises : Bool) (draw : ℚ)
  | callStart
  | start
  | callStop (wait : Bool)
  | stop (i : Nat)
  | callPublish (body : Bytes) (routingKey : Option String)
  | publish (i : Nat)
  | tick (dt : ℚ)
  | lose (c : Nat)

def step (s : PublishBackend) : Action → Option PublishBackend
  | .io raises draw => s.thread.bind fun th => s.io self th raises draw
  | .callStart => s.callStart
  | .start => s.start
  | .callStop wait => some (s.callStop wait)
  | .stop i => s.stop self i
  | .callPublish body routingKey => some (s.callPublish self body routingKey)
  | .publish i => s.publish self i
  | .tick dt => if 0 ≤ dt then some { s with clock := s.clock + dt } else none
  | .lose c => some { s with connections := s.connections.close c }

def machine : Machine PublishBackend Action where
  init := initial
  step := step self

end PublishBackend

end MqAdapters
