import MqAdapters.AsyncSender.Model
import MqAdapters.Python.Value
import MqAdapters.RetryPolicy

/-!
# The client

`RabbitMQClient`: what `publisher` and `async_publisher` create and cache, and
what `close` and `aclose` stop.

* A pool or a sender is known by its place in the list of all that were created,
  which records history and is read by nothing else.
* A dictionary is a list of its items, in the order in which they were put in.
* `stop` of a pool or of a sender is an input: it returns or raises.
* `σ` is the type of serializers.

Listeners, which the client creates and forgets, are left out, and so is logging.
-/

namespace MqAdapters

open Python

/-- The exceptions of the factory methods. -/
inductive PyError
  | valueError (message : String)
  | keyError (key : String)
  | typeError
  | attributeError
  /-- `int` or `float` raised -/
  | conversion
  | runtimeError (message : String)
  | importError (message : String)
  deriving DecidableEq

/-- The defaults of `RetryPolicy`. -/
def defaultRetryPolicy : RetryPolicy := ⟨some 5, 1 / 4, 5, 2, 1 / 10⟩

namespace Client

/-- The arguments of `RabbitMQClient.__init__`, and its surroundings. -/
structure Config where
  connectionParams : Option Dict
  messageTypeMap : Option Dict
  /-- a callable `connection_factory` was given -/
  connectionFactory : Bool
  /-- `load_connection_params_from_env()` -/
  envParams : Option Dict
  /-- `AsyncSender` could be imported -/
  asyncSupport : Bool
  /-- `aio_pika` can be imported -/
  aioPika : Bool

/-- The keyword arguments that `publisher` passes on to `PublisherPool`; `none`
is an argument that is not given. -/
structure PoolArgs (σ : Type) where
  numWorkers : Option Value
  confirmDelivery : Option Bool
  queueMaxsize : Option Value
  serializer : Option (Option σ)
  reconnectRetryPolicy : Option (Option RetryPolicy)
  /-- an argument that `PublisherPool` does not have, or has twice -/
  misfit : Bool

/-- The keyword arguments that `async_publisher` passes on to `AsyncSender`. -/
structure SenderArgs (σ : Type) where
  confirmDelivery : Option Bool
  retryPolicy : Option (Option RetryPolicy)
  confirmBatchSize : Option Value
  /-- `float(confirm_flush_interval)`, `none` if that raises -/
  confirmFlushInterval : Option (Option ℚ)
  serializer : Option (Option σ)
  /-- an argument that `AsyncSender` does not have, or has twice -/
  misfit : Bool

end Client

/-- `PublisherPool`, with what it gives its backend. -/
structure PublisherPool (σ : Type) where
  messageType : String
  destination : Dict
  numWorkers : Int
  confirmDelivery : Bool
  queueMaxsize : Int
  /-- `none` is `default_serializer` -/
  serializer : Option σ
  /-- the backend's policy -/
  reconnectRetryPolicy : RetryPolicy

namespace Client

variable {σ : Type}

namespace Config

variable (self : Config)

/-- `message_type_map or connection_params.get('message_types')`, without parameters
the map alone. -/
def messageTypes : Value :=
  match self.messageTypeMap with
  | some (entry :: entries) => .dict "" (entry :: entries)
  | _ =>
    match self.connectionParams with
    | some (entry :: entries) => Dict.get (entry :: entries) "message_types"
    | _ => .none

/-- `self._message_type_map[self._message_type]`, and the error `absent` if there is no
map. -/
def destination (absent : PyError) (messageType : String) : Except PyError Value :=
  if self.messageTypes.truthy = false then .error absent
  else
    match self.messageTypes with
    | .dict _ entries =>
      match entries.lookup messageType with
      | some v => .ok v
      | none => .error (.keyError messageType)
    | _ => .error .typeError

def int (v : Value) : Except PyError Int :=
  match v.toInt with
  | some n => .ok n
  | none => .error .conversion

/-- `make_connection_factory_from_params`, which only checks here. -/
def checkParams (params : Dict) : Except PyError Unit :=
  match ["server", "port", "username", "password", "vhost"].filter
      fun k => (params.lookup k).isNone with
  | [] => (int (params.get "port")).map fun _ => ()
  | missing => .error (.valueError <| "Missing required connection params: [" ++
      ", ".intercalate (missing.map fun k => "'" ++ k ++ "'") ++ "]")

/-- The connection factory of `PublisherPool.__init__`. -/
def resolveConnection : Except PyError Unit :=
  if self.connectionFactory then .ok ()
  else
    match self.connectionParams with
    | some (entry :: entries) => checkParams (entry :: entries)
    | _ =>
      match self.envParams with
      | some params => checkParams params
      | none => .error (.valueError <|
          "No connection configuration provided. Pass connection_factory or connection_params, " ++
          "or set RABBITMQ_* env vars")

end Config

open Config (int)

/-- `PublisherPool.__init__`. -/
def newPool (self : Config) (messageType : String) (kwargs : PoolArgs σ) :
    Except PyError (PublisherPool σ) := do
  if kwargs.misfit then throw .typeError
  let value ← self.destination (.valueError <|
    "message_type_map must be provided either via connection_params[\"message_types\"] or " ++
    "message_type_map argument") messageType
  self.resolveConnection
  let workers ← int (kwargs.numWorkers.getD (.int 4))
  let some destination := value.asDict | throw .attributeError
  let maxsize ← int (kwargs.queueMaxsize.getD (.int 0))
  return {
    messageType := messageType
    destination := destination
    numWorkers := max 1 workers
    confirmDelivery := kwargs.confirmDelivery.getD false
    queueMaxsize := max 0 maxsize
    serializer := kwargs.serializer.getD none
    reconnectRetryPolicy := (kwargs.reconnectRetryPolicy.getD none).getD loopRetryPolicy }

/-- `AsyncSender.__init__`. -/
def newSender (self : Config) (messageType : String) (kwargs : SenderArgs σ) :
    Except PyError AsyncSender.Config := do
  if kwargs.misfit then throw .typeError
  if !self.aioPika then
    throw (.importError
      "aio-pika is not installed. Install with: pip install rabbit-mq-client[async]")
  let value ← self.destination (.valueError <|
    "message_type_map must be provided either via message_type_map argument or " ++
    "connection_params[\"message_types\"]") messageType
  let batchSize ← int (kwargs.confirmBatchSize.getD (.int 0))
  let some interval := kwargs.confirmFlushInterval.getD (some 0) | throw .conversion
  return {
    confirmDelivery := kwargs.confirmDelivery.getD false
    retryPolicy := (kwargs.retryPolicy.getD none).getD defaultRetryPolicy
    confirmBatchSize := batchSize
    confirmFlushInterval := interval
    routingKey := match value with
      | .dict _ entries => match Dict.get entries "routing_key" with
        | .str key => some key
        | _ => none
      | _ => none }

end Client

open Client

/-- The client, and what it has created. -/
structure Client (σ : Type) where
  /-- `self._sync_pools`, with the numbers of the pools -/
  syncPools : List (String × Nat)
  /-- `self._async_pools` -/
  asyncPools : List (String × Nat)
  pools : List (PublisherPool σ)
  senders : List AsyncSender.Config

namespace Client

variable {σ ε : Type} (self : Config)

def initial : Client σ where
  syncPools := []
  asyncPools := []
  pools := []
  senders := []

/-- `SyncPublisher`, by its backend. -/
inductive SyncPublisher
  | pool (n : Nat)
  /-- `_LightweightSender`, which sends through a pool -/
  | lightweightSender (n : Nat)
  deriving DecidableEq

/-- `AsyncPublisher`, by its sender. -/
structure AsyncPublisher where
  sender : Nat
  deriving DecidableEq

/-- The pool of a message type, a new one unless there is one already. -/
def pool (s : Client σ) (messageType : String) (kwargs : PoolArgs σ) :
    Except PyError (Nat × Client σ) :=
  match s.syncPools.lookup messageType with
  | some n => .ok (n, s)
  | none => (newPool self messageType kwargs).map fun p =>
    (s.pools.length, { s with
      syncPools := s.syncPools ++ [(messageType, s.pools.length)]
      pools := s.pools ++ [p] })

/-- `kwargs.setdefault(key, policy)`, unless no policy is given. -/
def setdefault (policy : Option RetryPolicy) (given : Option (Option RetryPolicy)) :
    Option (Option RetryPolicy) :=
  match policy with
  | none => given
  | some policy => some (given.getD (some policy))

def publisher (s : Client σ) (messageType backend : String) (retryPolicy : Option RetryPolicy)
    (kwargs : PoolArgs σ) : Except PyError SyncPublisher × Client σ :=
  match s.pool self messageType { kwargs with
      reconnectRetryPolicy := setdefault retryPolicy kwargs.reconnectRetryPolicy } with
  | .error e => (.error e, s)
  | .ok (n, s) =>
    if backend = "pool" then (.ok (.pool n), s)
    else if backend = "lightweight_sender" then (.ok (.lightweightSender n), s)
    else (.error (.valueError ("Unknown sync publisher backend: '" ++ backend ++ "'")), s)

def asyncPublisher (s : Client σ) (messageType backend : String)
    (retryPolicy : Option RetryPolicy) (kwargs : SenderArgs σ) :
    Except PyError AsyncPublisher × Client σ :=
  let kwargs := { kwargs with retryPolicy := setdefault retryPolicy kwargs.retryPolicy }
  if !self.asyncSupport then
    (.error (.runtimeError
      "Async support not installed. Install with: pip install rabbit-mq-client[async]"), s)
  else if backend ≠ "sender" then
    (.error (.valueError ("Unknown async publisher backend: '" ++ backend ++ "'")), s)
  else
    match newSender self messageType kwargs with
    | .error e => (.error e, s)
    | .ok sender => (.ok ⟨s.senders.length⟩, { s with senders := s.senders ++ [sender] })

inductive Call (σ : Type)
  | publisher (messageType backend : String) (retryPolicy : Option RetryPolicy)
    (kwargs : PoolArgs σ)
  | asyncPublisher (messageType backend : String) (retryPolicy : Option RetryPolicy)
    (kwargs : SenderArgs σ)

/-- The client after a call, whether it returned or raised. -/
def call (s : Client σ) : Call σ → Client σ
  | .publisher messageType backend retryPolicy kwargs =>
    (s.publisher self messageType backend retryPolicy kwargs).2
  | .asyncPublisher messageType backend retryPolicy kwargs =>
    (s.asyncPublisher self messageType backend retryPolicy kwargs).2

/-- The client after a sequence of calls. -/
def after (calls : List (Call σ)) : Client σ := calls.foldl (call self) initial

/-! ## `close` and `aclose` -/

/-- How a call of `stop` ends; `except Exception` catches an `exception` only. -/
inductive StopOutcome (ε : Type)
  | returned
  | exception (e : ε)
  | baseException (e : ε)
  deriving DecidableEq

/-- The exception that a call of `stop` raises. -/
def StopOutcome.error? : StopOutcome ε → Option ε
  | .returned => none
  | .exception e => some e
  | .baseException e => some e

/-- How `close` ends. -/
inductive Closed (ε : Type)
  | returned
  | closeError (errors : List ε)
  | raised (e : ε)
  deriving DecidableEq

def raiseIfErrors (errors : List ε) : Closed ε :=
  if errors = [] then .returned else .closeError errors

/-- The loop over the values of a cache: those that `stop` was called on, and the
errors collected, or the exception that left the loop. -/
def stopEach (stop : Nat → StopOutcome ε) : List Nat → List ε → List Nat × Except ε (List ε)
  | [], errors => ([], .ok errors)
  | n :: rest, errors =>
    match stop n with
    | .returned => (n :: (stopEach stop rest errors).1, (stopEach stop rest errors).2)
    | .exception e =>
      (n :: (stopEach stop rest (errors ++ [e])).1, (stopEach stop rest (errors ++ [e])).2)
    | .baseException e => ([n], .error e)

/-- What was created and has a `stop`. -/
inductive Owned
  | pool (n : Nat)
  | sender (n : Nat)
  deriving DecidableEq

/-- What `close` or `aclose` did: the calls of `stop`, the client after, the end. -/
structure Leaving (σ ε : Type) where
  stopped : List Owned
  client : Client σ
  ended : Closed ε

variable (stop : Owned → StopOutcome ε)

/-- `close`, and so `__exit__`. -/
def close (s : Client σ) : Leaving σ ε :=
  match stopEach (fun n => stop (.pool n)) (s.syncPools.map Prod.snd) [] with
  | (stopped, .ok errors) =>
    ⟨stopped.map .pool, { s with syncPools := [] }, raiseIfErrors errors⟩
  | (stopped, .error e) => ⟨stopped.map .pool, s, .raised e⟩

/-- `aclose`, and so `__aexit__`. -/
def aclose (s : Client σ) : Leaving σ ε :=
  match stopEach (fun n => stop (.sender n)) (s.asyncPools.map Prod.snd) [] with
  | (stopped, .ok errors) =>
    ⟨stopped.map .sender, { s with asyncPools := [] }, raiseIfErrors errors⟩
  | (stopped, .error e) => ⟨stopped.map .sender, s, .raised e⟩

end Client

end MqAdapters
