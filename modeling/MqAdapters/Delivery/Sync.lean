import MqAdapters.Listener.Setup

/-!
# The sync delivery paths

`Listener._internal_wrapper`, `Listener._auto_ack_wrapper`, and
`Listener._offload_wrapper` with the pieces it leaves to others; `onMessage` is the one
of them that is registered.  The user callback
runs on a worker of the executor, and so does `_on_done`, unless the callback has
ended before `add_done_callback`, which then runs `_on_done` on the I/O thread.  `_ack`
or `_handle_fail` run on the I/O thread when `add_callback_threadsafe` took them, and
where `_on_done` is otherwise.  The programs here do not say on which thread they run.
-/

namespace MqAdapters

open Python Theory Code

/-- The sync `Listener`, as far as its wrappers read it.  With `offload` it has
an executor and a semaphore. -/
structure Listener extends Settings where
  offload : Bool

def internalWrapper (self : Settings) (ch : Nat) (method : Method)
    (properties : Option BasicProperties) (body : Bytes) : Code Unit := do
  if ← stopMe then
    return
  inc .received
  exceptException
    (do
      let _ ← callback properties body
      if !self.autoAck then
        match method.deliveryTag with
        | some deliveryTag =>
          basicAck ch deliveryTag
          inc .acked
        | none => return)
    (do
      if !self.autoAck then
        match method.deliveryTag with
        | some deliveryTag =>
          basicNack ch deliveryTag true
          inc .nacked
        | none => return)

def autoAckWrapper (_ch : Nat) (_method : Method) (properties : Option BasicProperties)
    (body : Bytes) : Code Unit := do
  if ← stopMe then
    return
  inc .received
  -- exceptions bubble
  let _ ← callback properties body

/-- The properties of the dead-letter publish: a new `pika.BasicProperties`
with every field copied. -/
def dlProps (properties : Option BasicProperties) : Option BasicProperties :=
  properties.map fun p => {
    contentType := p.contentType
    contentEncoding := p.contentEncoding
    headers := p.headers
    deliveryMode := p.deliveryMode
    priority := p.priority
    correlationId := p.correlationId
    replyTo := p.replyTo
    expiration := p.expiration
    messageId := p.messageId
    timestamp := p.timestamp
    type := p.type
    userId := p.userId
    appId := p.appId
    clusterId := p.clusterId }

/-- Nothing is lost in the copy. -/
theorem dlProps_eq (properties : Option BasicProperties) : dlProps properties = properties := by
  cases properties <;> rfl

/-- `_ack`. -/
def ackOffloaded (ch deliveryTag : Nat) : Code Unit :=
  exceptException
    (do
      basicAck ch deliveryTag
      inc .acked)
    (return)

def handleFail (ch : Nat) (properties : Option BasicProperties) (body : Bytes)
    (deliveryTag : Nat) (cfg : DeadLetteringConfig) (attempt : Int) : Code Unit :=
  exceptException
    (match cfg.poisonQueue attempt with
    | some deadLetterQueue => do
      basicPublish ch "" deadLetterQueue body (dlProps properties)
      basicAck ch deliveryTag
      inc .acked
    | none => do
      if cfg.onError = .deadLetter then
        basicNack ch deliveryTag false
      else
        basicNack ch deliveryTag true
      inc .nacked)
    (return)

def Schedule.run (ch : Nat) (properties : Option BasicProperties) (body : Bytes) :
    Schedule → Code Unit
  | .ack deliveryTag => ackOffloaded ch deliveryTag
  | .fail deliveryTag cfg attempt => handleFail ch properties body deliveryTag cfg attempt

/-- What `_on_done` schedules for a callback that ended with `exc`. -/
def Schedule.of (self : Settings) (properties : Option BasicProperties) (deliveryTag : Nat) :
    Option Raised → Schedule
  | none => .ack deliveryTag
  | some _ => .fail deliveryTag self.config (retryAttemptFromHeaders (headersOf properties))

/-- `_on_done`, given the exception of the finished callback. -/
def onDone (self : Settings) (ch : Nat) (method : Method) (properties : Option BasicProperties)
    (body : Bytes) (exc : Option Raised) : Code Unit :=
  Program.ensure
    (do
      if exc.isSome then
        inc .handlerExceptions
      if self.autoAck then
        return
      match method.deliveryTag with
      | none => return
      | some deliveryTag =>
        let schedule := Schedule.of self properties deliveryTag exc
        exceptException
          (do
            if ← connectionIsOpen then
              addCallbackThreadsafe schedule
            else
              schedule.run ch properties body)
          (exceptException (schedule.run ch properties body) (return)))
    (exceptException release (return))

/-- What `submit` sets going: the callback, and then the done-callback with whatever it
raised. -/
def offloaded (self : Settings) (ch : Nat) (method : Method) (properties : Option BasicProperties)
    (body : Bytes) : Code Unit := do
  let result ← (callback properties body).attempt
  onDone self ch method properties body (match result with
    | .ok _ => none
    | .error e => some e)

/-- `_offload_wrapper`.  The `try` covers `acquire`, `submit` and `add_done_callback`; its
`except` gives the permit back if it was acquired and handles the delivery directly. -/
def offloadWrapper (self : Listener) (ch : Nat) (method : Method)
    (properties : Option BasicProperties) (body : Bytes) : Code Unit := do
  if !self.offload then
    internalWrapper self.toSettings ch method properties body
  else
    if ← stopMe then
      return
    inc .received
    match ← acquire.attempt with
    | .error .exception => internalWrapper self.toSettings ch method properties body
    | .error .baseException => Program.raise .baseException
    | .ok _ =>
      exceptException
        (do
          submit
          addDoneCallback)
        (do
          exceptException release (return)
          internalWrapper self.toSettings ch method properties body)

namespace Listener

def wrapper (self : Listener) : ListenerSetup.Wrapper := .of self.offload self.autoAck

/-- `on_message_callback`. -/
def onMessage (self : Listener) (ch : Nat) (method : Method)
    (properties : Option BasicProperties) (body : Bytes) : Code Unit :=
  match self.wrapper with
  | .offload => offloadWrapper self ch method properties body
  | .autoAck => autoAckWrapper ch method properties body
  | .internal => internalWrapper self.toSettings ch method properties body

section

variable {τ : Type} {R : Program.Rules Op Op.Ans τ} {ch : Nat} {method : Method}
  {properties : Option BasicProperties} {body : Bytes} {h : List Call}
  {Q : List Call → Except Raised Unit → Prop}

/-- `_auto_ack_wrapper` makes the calls of `_internal_wrapper`, and differs only in what it
lets out. -/
theorem wp_direct {self : Settings} (hQ : ∀ h r r', Q h r → Q h r')
    (hwp : (internalWrapper self ch method properties body).wp R Q h) :
    ((⟨self, false⟩ : Listener).onMessage ch method properties body).wp R Q h := by
  cases hauto : self.autoAck with
  | false => simpa [onMessage, wrapper, ListenerSetup.Wrapper.of, hauto] using hwp
  | true =>
    have hout : ∀ h, Q h (.error .exception) ↔ Q h (.ok ()) := fun h => ⟨hQ h _ _, hQ h _ _⟩
    simpa [onMessage, wrapper, ListenerSetup.Wrapper.of, autoAckWrapper, internalWrapper, hauto,
      hout] using hwp

/-- What `_offload_wrapper` does covers the other modes. -/
theorem wp_onMessage {self : Listener} (hQ : ∀ h r r', Q h r → Q h r')
    (hwp : (offloadWrapper self ch method properties body).wp R Q h) :
    (self.onMessage ch method properties body).wp R Q h := by
  obtain ⟨settings, _ | _⟩ := self
  · exact wp_direct hQ hwp
  · exact hwp

end

end Listener

end MqAdapters
