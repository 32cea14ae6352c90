import MqAdapters.Delivery.Operations

/-!
# The async delivery path

`AsyncListener.start` creates one task per delivery; the task runs
`_run_handler`.  Every `await` is an operation, so a task can be interrupted
there, and a cancellation is an answer `baseException`.
-/

namespace MqAdapters

open Python Theory Code

/-- `aio_pika.IncomingMessage`; its headers are those of its properties. -/
structure IncomingMessage where
  channel : Nat
  deliveryTag : Nat
  headers : Option Dict
  properties : Option BasicProperties
  body : Bytes

def Delivery.message (d : Delivery) : IncomingMessage where
  channel := d.channel
  deliveryTag := d.deliveryTag
  headers := headersOf d.properties
  properties := d.properties
  body := d.body

def IncomingMessage.ack (message : IncomingMessage) : Code Unit :=
  basicAck message.channel message.deliveryTag

def IncomingMessage.nack (message : IncomingMessage) (requeue : Bool) : Code Unit :=
  basicNack message.channel message.deliveryTag requeue

/-- The `aio_pika.Message` published to the dead-letter queue: the headers of
the message and eleven of its properties.  The type is lost: the source asks for
`type`, which is called `message_type` in these properties. -/
def IncomingMessage.deadLetter (message : IncomingMessage) : BasicProperties :=
  let get (f : BasicProperties → Value) : Value := (message.properties.map f).getD .none
  { contentType := get (·.contentType)
    contentEncoding := get (·.contentEncoding)
    headers := message.headers
    deliveryMode := get (·.deliveryMode)
    priority := get (·.priority)
    correlationId := get (·.correlationId)
    replyTo := get (·.replyTo)
    expiration := get (·.expiration)
    messageId := get (·.messageId)
    timestamp := get (·.timestamp)
    type := .none
    userId := get (·.userId)
    appId := get (·.appId)
    clusterId := .none }

/-- The poison branch: publish to the dead-letter queue, then ack.  `true` is
the `return` of the source; on an exception it falls through. -/
def publishPoison (message : IncomingMessage) (deadLetterQueue : String) : Code Bool :=
  exceptException
    (do
      -- `assert self._channel is not None`
      if !(← channelIsSet) then
        Program.raise .exception
      defaultExchangePublish deadLetterQueue message.body message.deadLetter
      message.ack
      return true)
    (return false)

/-- The `except` branch of `_run_handler`. -/
def handlerFailed (self : Settings) (message : IncomingMessage) : Code Unit := do
  if !self.autoAck then
    exceptException
      (do
        let cfg := self.config
        let attempt := retryAttemptFromHeaders message.headers
        let settled ← match cfg.poisonQueue attempt with
          | some deadLetterQueue => publishPoison message deadLetterQueue
          | none => pure false
        if !settled then
          if cfg.onError = .deadLetter then
            message.nack false
          else
            message.nack true)
      (return)

def runHandler (self : Settings) (message : IncomingMessage) : Code Unit := do
  -- `assert self._semaphore is not None`
  if !(← semaphoreIsSet) then
    Program.raise .exception
  acquire
  Program.ensure
    (exceptException
      (do
        let result ← callback message.properties message.body
        if result = .coroutine then
          awaitResult
        if !self.autoAck then
          message.ack)
      (handlerFailed self message))
    (exceptException release (return))

end MqAdapters
