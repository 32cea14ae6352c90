import MqAdapters.Pika
import MqAdapters.RetryPolicy
import MqAdapters.Stats
import MqAdapters.Theory.Machine

/-!
# The loop of the sync listener

`Listener.run` and `Listener.stop_listening` as one machine: the I/O thread and
a second thread that stops it share the flag `stop_me` and the fields
`__connection` and `__channel`.

* Every read or write of a shared field is a step of its own, so that the other
  thread can come between any two of them.
* The action of the I/O thread says whether the call it makes raises, whether
  `process_data_events` runs the functions that were queued, and what
  `random.uniform` draws.
* A function handed to `add_callback_threadsafe` runs only inside a later
  `process_data_events` of the same connection; the call raises on a connection
  that is not open.

The set-up of channel and consumer is two calls here: `connection.channel()`,
and everything after it.  Deliveries are handled elsewhere, and an exception of
a wrapper is an exception of `process_data_events`.
-/

namespace MqAdapters

open Theory

/-- A channel: the connection it was opened on, whether it was closed itself, and
how many consumers were registered on it. -/
structure ListenerChannel where
  connection : Nat
  isOpen : Bool
  consumers : Nat
  deriving DecidableEq

namespace ListenerLoop

/-- The retry policies of a `Listener`. -/
structure Config where
  connectRetryPolicy : RetryPolicy
  loopRetryPolicy : RetryPolicy

/-- The two `except Exception` handlers of `run`. -/
inductive Level
  | inner
  | outer
  deriving DecidableEq

/-- Where the I/O thread is in `run`. -/
inductive Pc
  /-- before `self.__running = True` -/
  | begin
  /-- `while not self.stop_me` -/
  | top
  /-- `if not self.__connection or not self.__connection.is_open` -/
  | checkConnection
  /-- in `sync_retry`, at the stop predicate -/
  | retry (attempt : Nat)
  /-- in the connection factory -/
  | connecting (attempt : Nat)
  /-- in the `except` of `sync_retry` -/
  | retryFailed (attempt : Nat)
  | retrySleep (attempt : Nat) (until_ : ℚ)
  /-- `if not self.__channel or not self.__channel.is_open` -/
  | checkChannel
  /-- `self.__channel = self.__connection.channel()` -/
  | openChannel
  /-- the rest of `_setup_channel_and_consumer` -/
  | setup
  /-- in `process_data_events` -/
  | pump
  /-- `if not self.stop_me` in a handler -/
  | handler (level : Level)
  | closeChannel (level : Level)
  | closeConnection (level : Level)
  | clearChannel (level : Level)
  | clearConnection (level : Level)
  /-- the failure count and the delay -/
  | backoff (level : Level)
  | sleep (until_ : ℚ)
  /-- `run` has returned -/
  | exited
  /-- an exception has left `run` -/
  | escaped (e : DelayError)
  deriving DecidableEq

/-- Where `stop_listening` is. -/
inductive StopPc
  | idle
  /-- `self.stop_me = True` -/
  | set
  /-- `if self.__connection` -/
  | readConnection
  /-- `and self.__connection.is_open` -/
  | readIsOpen
  /-- `self.__connection.add_callback_threadsafe(...)` -/
  | schedule
  /-- `if self.__channel is not None and self.__channel.is_open` -/
  | testConsuming
  | stopConsuming
  | testChannel
  | closeChannel
  /-- `if self.__connection is not None` -/
  | testConnection
  /-- `and self.__connection.is_open` -/
  | testIsOpen
  | closeConnection
  deriving DecidableEq

/-- What `stop_listening` does itself, on the thread that called it. -/
inductive Direct
  | stopConsuming
  | closeChannel
  | closeConnection
  deriving DecidableEq

end ListenerLoop

open ListenerLoop

/-- The fields that the two threads share, and where each of them is. -/
structure ListenerLoop where
  stopMe : Bool
  running : Bool
  /-- `self.__connection` -/
  connection : Option Nat
  /-- `self.__channel` -/
  channel : Option Nat
  loopFailures : Nat
  stats : Stats
  pc : Pc
  stopping : StopPc
  clock : ℚ
  connections : Connections
  channels : List ListenerChannel
  /-- the connections that a request to stop and close is queued on -/
  queued : List Nat
  /-- the direct calls of `stop_listening`, and whether their target was open -/
  direct : List (Direct × Bool)
  /-- the exceptions that left an `except` as it computed or slept a delay -/
  escapes : List DelayError

namespace ListenerLoop

variable (self : Config)

def initial : ListenerLoop where
  stopMe := false
  running := false
  connection := none
  channel := none
  loopFailures := 0
  stats := Stats.zero
  pc := .begin
  stopping := .idle
  clock := 0
  connections := []
  channels := []
  queued := []
  direct := []
  escapes := []

/-- `self.__connection and self.__connection.is_open`. -/
def connected (s : ListenerLoop) : Bool := s.connections.usable s.connection

/-- A channel is open until it or its connection is closed. -/
def channelOpen (s : ListenerLoop) (k : Nat) : Bool :=
  (s.channels[k]?).any fun ch => ch.isOpen && s.connections.isOpen ch.connection

/-- `self.__channel and self.__channel.is_open`. -/
def consuming (s : ListenerLoop) : Bool := s.channel.any s.channelOpen

def shutChannel (s : ListenerLoop) (k : Option Nat) : ListenerLoop :=
  match k with
  | none => s
  | some k => { s with channels := s.channels.modify k fun ch => { ch with isOpen := false } }

/-- `self.__channel.close()` if that is open. -/
def dropChannel (s : ListenerLoop) : ListenerLoop :=
  if s.consuming then s.shutChannel s.channel else s

/-- `self.__connection.close()` if that is open, with its counter. -/
def dropConnection (s : ListenerLoop) (raises : Bool) : ListenerLoop :=
  match s.connection with
  | none => s
  | some c =>
    if s.connections.isOpen c then { s with
      connections := s.connections.close c
      stats := if raises then s.stats else s.stats.incConnectionsClosed }
    else s

/-! ## The I/O thread -/

/-- The stop predicate of `sync_retry`; it raises the last exception, or
`RuntimeError` before the first attempt. -/
def retry (s : ListenerLoop) (attempt : Nat) : ListenerLoop :=
  { s with pc := if s.stopMe then .handler .outer else .connecting attempt }

def connectOnce (s : ListenerLoop) (attempt : Nat) (raises : Bool) : ListenerLoop :=
  if raises then { s with pc := .retryFailed attempt }
  else { s with
    connection := some s.connections.fresh
    connections := s.connections.connect
    stats := s.stats.incConnectionsOpened
    pc := .checkChannel }

/-- The `except` of `sync_retry`, up to the sleep. -/
def retryFailed (s : ListenerLoop) (attempt : Nat) (draw : ℚ) : ListenerLoop :=
  if self.connectRetryPolicy.maxAttempts.any fun n => n ≤ (attempt : Int) then
    { s with pc := .handler .outer }
  else
    match self.connectRetryPolicy.pause (attempt + 1) draw with
    | .error e => { s with escapes := s.escapes ++ [e], pc := .handler .outer }
    | .ok delay => { s with pc := .retrySleep attempt (s.clock + delay) }

/-- `self.__channel = self.__connection.channel()`. -/
def openChannel (s : ListenerLoop) (raises : Bool) : ListenerLoop :=
  match s.connection with
  | none => { s with pc := .handler .outer }
  | some c =>
    if raises then { s with pc := .handler .outer }
    else { s with
      channel := some s.channels.length
      channels := s.channels ++ [⟨c, true, 0⟩]
      pc := .setup }

/-- The declarations and `basic_consume`. -/
def setup (s : ListenerLoop) (raises : Bool) : ListenerLoop :=
  if raises then { s with pc := .handler .outer }
  else { s with
    channels := match s.channel with
      | none => s.channels
      | some k => s.channels.modify k fun ch => { ch with consumers := ch.consumers + 1 }
    pc := .pump }

/-- The functions queued on the connection: `_request_stop_and_close`. -/
def runQueued (s : ListenerLoop) (raises : Bool) : ListenerLoop :=
  match s.connection with
  | none => s
  | some c =>
    if s.queued.contains c then
      { s with queued := s.queued.filter (· ≠ c) }.dropChannel.dropConnection raises
    else s

/-- `process_data_events`. -/
def pump (s : ListenerLoop) (runs raises : Bool) : ListenerLoop :=
  let s := if runs then s.runQueued raises else s
  if raises then { s with pc := .handler .inner } else { s with loopFailures := 0, pc := .top }

/-- The end of a handler, up to the sleep.  An exception of the inner handler is
caught by the outer one. -/
def backoff (s : ListenerLoop) (level : Level) (draw : ℚ) : ListenerLoop :=
  let s := { s with
    loopFailures := s.loopFailures + 1
    stats := s.stats.incReconnectAttempts }
  match self.loopRetryPolicy.pause (s.loopFailures + 1) draw with
  | .error e => { s with
      escapes := s.escapes ++ [e]
      pc := match level with
        | .inner => .handler .outer
        | .outer => .escaped e }
  | .ok delay => { s with pc := .sleep (s.clock + delay) }

/-- One step of `run`. -/
def io (s : ListenerLoop) (raises runs : Bool) (draw : ℚ) : Option ListenerLoop :=
  match s.pc with
  | .begin => some { s with running := true, pc := .top }
  | .top => some { s with pc := if s.stopMe then .exited else .checkConnection }
  | .checkConnection => some { s with pc := if s.connected then .checkChannel else .retry 1 }
  | .retry attempt => some (s.retry attempt)
  | .connecting attempt => some (s.connectOnce attempt raises)
  | .retryFailed attempt =>
    if self.connectRetryPolicy.draws draw then some (s.retryFailed self attempt draw) else none
  | .retrySleep attempt until_ =>
    if until_ ≤ s.clock then some { s with pc := .retry (attempt + 1) } else none
  | .checkChannel => some { s with pc := if s.consuming then .pump else .openChannel }
  | .openChannel => some (s.openChannel raises)
  | .setup => some (s.setup raises)
  | .pump => some (s.pump runs raises)
  | .handler level => some { s with pc := if s.stopMe then .top else .closeChannel level }
  | .closeChannel level => some { s.dropChannel with pc := .closeConnection level }
  | .closeConnection level => some { s.dropConnection raises with pc := .clearChannel level }
  | .clearChannel level => some { s with channel := none, pc := .clearConnection level }
  | .clearConnection level => some { s with connection := none, pc := .backoff level }
  | .backoff level =>
    if self.loopRetryPolicy.draws draw then some (s.backoff self level draw) else none
  | .sleep until_ => if until_ ≤ s.clock then some { s with pc := .top } else none
  | .exited => none
  | .escaped _ => none

/-! ## The stopping thread -/

def callStop (s : ListenerLoop) : Option ListenerLoop :=
  match s.stopping with
  | .idle => some { s with stopping := .set }
  | _ => none

/-- One step of `stop_listening`. -/
def stop (s : ListenerLoop) : Option ListenerLoop :=
  match s.stopping with
  | .idle => none
  | .set => some { s with stopMe := true, stopping := .readConnection }
  | .readConnection => some { s with
      stopping := if s.connection.isSome then .readIsOpen else .testConsuming }
  | .readIsOpen => some { s with stopping := if s.connected then .schedule else .testConsuming }
  | .schedule =>
    match s.connection with
    | none => some { s with stopping := .testConsuming }
    | some c =>
      if s.connections.isOpen c then some { s with queued := s.queued ++ [c], stopping := .idle }
      else some { s with stopping := .testConsuming }
  | .testConsuming => some { s with
      stopping := if s.consuming then .stopConsuming else .testChannel }
  | .stopConsuming => some { s with
      direct := s.direct ++ [(.stopConsuming, s.consuming)]
      stopping := .testChannel }
  | .testChannel => some { s with
      stopping := if s.consuming then .closeChannel else .testConnection }
  | .closeChannel => some { s.shutChannel s.channel with
      direct := s.direct ++ [(.closeChannel, s.consuming)]
      stopping := .testConnection }
  | .testConnection => some { s with
      stopping := if s.connection.isSome then .testIsOpen else .idle }
  | .testIsOpen => some { s with stopping := if s.connected then .closeConnection else .idle }
  | .closeConnection => some { s with
      connections := match s.connection with
        | none => s.connections
        | some c => s.connections.close c
      direct := s.direct ++ [(.closeConnection, s.connected)]
      stopping := .idle }

inductive Action
  | io (raises runs : Bool) (draw : ℚ)
  | callStop
  | stop
  | tick (dt : ℚ)
  /-- a connection is lost -/
  | lose (c : Nat)
  /-- a channel is closed by its peer -/
  | loseChannel (k : Nat)

def step (s : ListenerLoop) : Action → Option ListenerLoop
  | .io raises runs draw => s.io self raises runs draw
  | .callStop => s.callStop
  | .stop => s.stop
  | .tick dt => if 0 ≤ dt then some { s with clock := s.clock + dt } else none
  | .lose c => some { s with connections := s.connections.close c }
  | .loseChannel k => some (s.shutChannel (some k))

def machine : Machine ListenerLoop Action where
  init := initial
  step := step self

end ListenerLoop

end MqAdapters
