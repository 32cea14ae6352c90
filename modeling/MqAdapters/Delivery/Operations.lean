import MqAdapters.DeadLettering
import MqAdapters.Theory.Crew

/-!
# What the delivery paths call

A delivery is handled by one of three pieces of code: `_internal_wrapper` and
`_offload_wrapper` of the sync `Listener`, and `_run_handler` of the
`AsyncListener`.  This file names everything they call or read outside
themselves, as operations of `Theory.Program`: the flag `stop_me`, the
semaphore, the executor, the user callback, the connection, the channel.

The answers are not fixed here.  A connection that was replaced, a stop at any
point, a callback that raises, a failing ack are all just answers, so what is
proved about every answer covers them.  Logging has no effect on any of this
and is left out.
-/

namespace MqAdapters

open Python Theory

/-- An exception, as `except Exception` sees it: `baseException` is one that it
lets through, such as `asyncio.CancelledError`. -/
inductive Raised
  | exception
  | baseException
  deriving DecidableEq

@[simp] theorem Raised.forall {P : Raised → Prop} :
    (∀ x, P x) ↔ P .exception ∧ P .baseException :=
  ⟨fun h => ⟨h _, h _⟩, fun h x => by cases x; exacts [h.1, h.2]⟩

@[simp] theorem forall_except {ε α : Type} {P : Except ε α → Prop} :
    (∀ r, P r) ↔ (∀ a, P (.ok a)) ∧ ∀ x, P (.error x) :=
  ⟨fun h => ⟨fun _ => h _, fun _ => h _⟩, fun h r => by cases r; exacts [h.2 _, h.1 _]⟩

@[simp] theorem forall_unit {P : Unit → Prop} : (∀ u, P u) ↔ P () := ⟨fun h => h (), fun h _ => h⟩

/-- The fields of `pika.BasicProperties`. -/
structure BasicProperties where
  contentType : Value
  contentEncoding : Value
  headers : Option Dict
  deliveryMode : Value
  priority : Value
  correlationId : Value
  replyTo : Value
  expiration : Value
  messageId : Value
  timestamp : Value
  type : Value
  userId : Value
  appId : Value
  clusterId : Value

/-- The `method` argument of a pika callback; `getattr(method, 'delivery_tag', None)`. -/
structure Method where
  deliveryTag : Option Nat

/-- A delivery by the broker: the channel object it came in on, its tag on that
channel, its properties and its body. -/
structure Delivery where
  channel : Nat
  deliveryTag : Nat
  properties : Option BasicProperties
  body : Bytes

/-- The broker numbers every delivery. -/
def Delivery.method (d : Delivery) : Method := ⟨some d.deliveryTag⟩

/-- `getattr(properties, 'headers', None) if properties is not None else None`. -/
def headersOf (properties : Option BasicProperties) : Option Dict :=
  properties.bind fun p => p.headers

/-- The settings that the three paths share. -/
structure Settings where
  destination : Dict
  autoAck : Bool

def Settings.config (self : Settings) : DeadLetteringConfig :=
  resolveDeadLetteringConfig self.destination

/-- What a user callback returns: `None` or any other plain value, a coroutine,
or an awaitable that is not a coroutine. -/
inductive Returned
  | value
  | coroutine
  | awaitable
  deriving DecidableEq

@[simp] theorem Returned.forall {P : Returned → Prop} :
    (∀ x, P x) ↔ P .value ∧ P .coroutine ∧ P .awaitable :=
  ⟨fun h => ⟨h _, h _, h _⟩, fun h x => by cases x; exacts [h.1, h.2.1, h.2.2]⟩

/-- The counters of `Stats` that the delivery paths increment. -/
inductive Counter
  | received
  | handlerExceptions
  | acked
  | nacked
  deriving DecidableEq

/-- The function that `_on_done` hands to the I/O thread, with the variables it
has captured. -/
inductive Schedule
  | ack (deliveryTag : Nat)
  | fail (deliveryTag : Nat) (cfg : DeadLetteringConfig) (attempt : Int)

/-- Everything a delivery path calls or reads outside itself. -/
inductive Op
  | stopMe
  | acquire
  | release
  | submit
  | addDoneCallback
  | callback (properties : Option BasicProperties) (body : Bytes)
  | awaitResult
  | connectionIsOpen
  | addCallbackThreadsafe (schedule : Schedule)
  | basicPublish (ch : Nat) (exchange routingKey : String) (body : Bytes)
      (properties : Option BasicProperties)
  | basicAck (ch deliveryTag : Nat)
  | basicNack (ch deliveryTag : Nat) (requeue : Bool)
  | semaphoreIsSet
  | channelIsSet
  | defaultExchangePublish (routingKey : String) (body : Bytes) (properties : BasicProperties)
  | inc (counter : Counter)

/-- What an operation can answer.  Reads and counters do not raise, and
`add_done_callback` lets only a `BaseException` of `_on_done` through: its answer says
whether it returns. -/
@[reducible] def Op.Ans : Op → Type
  | .stopMe | .addDoneCallback | .connectionIsOpen | .semaphoreIsSet | .channelIsSet => Bool
  | .callback _ _ => Except Raised Returned
  | .inc _ => Unit
  | _ => Except Raised Unit

abbrev Code := Program Op Op.Ans Raised

abbrev Call := Event Op Op.Ans

namespace Code

open Program (ask)

abbrev stopMe : Code Bool := ask .stopMe .ok
abbrev acquire : Code Unit := ask .acquire id
abbrev release : Code Unit := ask .release id
abbrev submit : Code Unit := ask .submit id
abbrev addDoneCallback : Code Unit :=
  ask .addDoneCallback fun r => if r then .ok () else .error .baseException
/-- The user callback.  The channel and method objects are handed to it as they
came and left out here. -/
abbrev callback (properties : Option BasicProperties) (body : Bytes) : Code Returned :=
  ask (.callback properties body) id
abbrev awaitResult : Code Unit := ask .awaitResult id
abbrev connectionIsOpen : Code Bool := ask .connectionIsOpen .ok
abbrev addCallbackThreadsafe (schedule : Schedule) : Code Unit :=
  ask (.addCallbackThreadsafe schedule) id
abbrev basicPublish (ch : Nat) (exchange routingKey : String) (body : Bytes)
    (properties : Option BasicProperties) : Code Unit :=
  ask (.basicPublish ch exchange routingKey body properties) id
abbrev basicAck (ch deliveryTag : Nat) : Code Unit := ask (.basicAck ch deliveryTag) id
abbrev basicNack (ch deliveryTag : Nat) (requeue : Bool) : Code Unit :=
  ask (.basicNack ch deliveryTag requeue) id
abbrev semaphoreIsSet : Code Bool := ask .semaphoreIsSet .ok
abbrev channelIsSet : Code Bool := ask .channelIsSet .ok
abbrev defaultExchangePublish (routingKey : String) (body : Bytes) (properties : BasicProperties) :
    Code Unit :=
  ask (.defaultExchangePublish routingKey body properties) id
abbrev inc (counter : Counter) : Code Unit := ask (.inc counter) .ok

/-- `try: p  except Exception: q`. -/
def exceptException {α : Type} (p q : Code α) : Code α :=
  p.handle fun
    | .exception => q
    | .baseException => Program.raise .baseException

section

variable {τ α : Type} {R : Program.Rules Op Op.Ans τ} {p q : Code α}
  {Q : List Call → Except Raised α → Prop} {h : List Call}

@[simp] theorem wp_exceptException : (exceptException p q).wp R Q h ↔
    p.wp R (fun h r => match r with
      | .ok a => Q h (.ok a)
      | .error .exception => q.wp R Q h
      | .error .baseException => Q h (.error .baseException)) h := by
  rw [exceptException, Program.wp_handle]
  constructor <;> refine Program.wp_mono (fun h r hr => ?_) p h
  all_goals rcases r with (_ | _) | _ <;> exact hr

end

end Code

end MqAdapters
