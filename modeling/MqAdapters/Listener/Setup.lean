import MqAdapters.Delivery.Operations

/-!
# How the sync listener sets up its consumer

`Listener._setup_channel_and_consumer` as a program over the calls it makes on the
connection and the channel.  Whether a call raises is its answer.  The exceptions
of `basic_qos`, of the bind and of all declarations but that of an exclusive queue
are logged and go no further.

* `setup_consumes`: when it returns, `basic_consume` has succeeded once, and when it
  raises, never.
-/

namespace MqAdapters

open Python Theory

/-- The `arguments` of a declaration: none, a table, or some object that is no
table. -/
inductive Arguments
  | none
  | table (entries : Dict)
  | other (v : Value)

/-- The object `v`, passed as `arguments`. -/
def Arguments.ofValue : Value → Arguments
  | .none => .none
  | .dict _ entries => .table entries
  | v => .other v

namespace ListenerSetup

structure PrefetchSettings where
  prefetchSize : Int
  prefetchCount : Int

/-- What the set-up reads of a `Listener`. -/
structure Config where
  destination : Dict
  predefinedQueue : Bool
  prefetchSettings : Option PrefetchSettings
  offload : Bool
  autoAck : Bool

/-- The function a consumer is registered with. -/
inductive Wrapper
  | offload
  | autoAck
  | internal

/-- The wrapper of each mode. -/
def Wrapper.of (offload autoAck : Bool) : Wrapper :=
  if offload then .offload
  else if autoAck then .autoAck
  else .internal

/-- The calls on the connection and the channel.  Parameters that are not passed
have pika's defaults, which are all false. -/
inductive Op
  | channel
  | basicQos (prefetchSize prefetchCount : Int)
  | queueDeclare (queue : Value) (durable exclusive autoDelete : Bool) (arguments : Arguments)
  | exchangeDeclare (exchange exchangeType : Value) (durable autoDelete : Bool)
  | queueBind (queue exchange routingKey : Value)
  | basicConsume (queue : Value) (onMessageCallback : Wrapper) (autoAck : Bool)

/-- A queue is declared under the name that the broker answers. -/
@[reducible] def Op.Ans : Op → Type
  | .queueDeclare .. => Except Raised String
  | _ => Except Raised Unit

abbrev Setup := Program Op Op.Ans Raised

abbrev Call := Event Op Op.Ans

open Program (ask)

/-- `except Exception`, with a log entry. -/
def swallow : Raised → Setup Unit
  | .exception => pure ()
  | .baseException => Program.raise .baseException

/-- `try: p`, and `swallow`. -/
def logged (p : Setup Unit) : Setup Unit := p.handle swallow

variable (self : Config)

/-- `basic_qos`, if there are settings. -/
def applyQos : Setup Unit :=
  match self.prefetchSettings with
  | none => pure ()
  | some p => logged (ask (.basicQos p.prefetchSize p.prefetchCount) id)

/-- The queue to consume, and its name. -/
def declareQueue : Setup Value := do
  let queueArguments := resolveQueueArguments self.destination
  let predefined := self.destination.get "predefined_queue_name"
  if self.predefinedQueue && predefined.truthy then
    let arguments := if queueArguments.isEmpty then .none else .table queueArguments
    logged do
      let _ ← ask (.queueDeclare predefined true false false arguments) id
    return predefined
  else
    let name ← ask (.queueDeclare (.str "") false true true .none) id
    return .str name

/-- The wrapper and the `auto_ack` of `basic_consume`. -/
def consumer : Wrapper × Bool := (.of self.offload self.autoAck, self.autoAck)

/-- `_setup_channel_and_consumer`, once it has a channel. -/
def setupConsumer : Setup Unit := do
  applyQos self
  let queueName ← declareQueue self
  logged <| ask (.exchangeDeclare (self.destination.get "exchange_name")
    (self.destination.get "exchange_type") true false) id
  logged <| ask (.queueBind queueName (self.destination.get "exchange_name")
    (self.destination.get "routing_key")) id
  ask (.basicConsume queueName (consumer self).1 (consumer self).2) id

def setupChannelAndConsumer : Setup Unit := do
  ask .channel id
  setupConsumer self

/-! ## The consumers it registers -/

/-- The call registered a consumer. -/
def consumes : Call → Bool
  | ⟨.basicConsume .., .ok _⟩ => true
  | _ => false

variable {self} (answer : (o : Op) → Op.Ans o)

/-- Nothing but `basic_consume` registers a consumer. -/
def Declares {α : Type} (p : Setup α) : Prop := ∀ e ∈ (p.exec answer).1, consumes e = false

variable {answer}

theorem swallow_exec (x : Raised) : ((swallow x).exec answer).1 = [] := by cases x <;> rfl

theorem logged_declares {p : Setup Unit} (h : Declares answer p) : Declares answer (logged p) := by
  unfold Declares logged
  rw [Program.exec_handle]
  intro e he
  cases hr : (p.exec answer).2 with
  | ok u => exact h e (by simpa [hr] using he)
  | error x =>
    rw [hr] at he
    exact h e (by simpa [swallow_exec] using he)

theorem bind_declares {α β : Type} {p : Setup α} {f : α → Setup β} (h : Declares answer p)
    (hf : ∀ a, Declares answer (f a)) : Declares answer (p.bind f) := by
  unfold Declares
  rw [Program.exec_bind]
  intro e he
  split at he
  · rcases List.mem_append.mp he with he | he
    · exact h e he
    · exact hf _ e he
  · exact h e he

theorem pure_declares {α : Type} (a : α) : Declares answer (Program.pure a) := by
  intro e he
  exact absurd he List.not_mem_nil

theorem ask_declares {α : Type} {o : Op} {f : Op.Ans o → Except Raised α}
    (ho : consumes ⟨o, answer o⟩ = false) : Declares answer (ask o f) := by
  intro e he
  rw [Program.exec_ask, List.mem_singleton] at he
  exact he ▸ ho

theorem applyQos_declares : Declares answer (applyQos self) := by
  unfold applyQos
  split
  · exact pure_declares ()
  · exact logged_declares (ask_declares rfl)

theorem declareQueue_declares : Declares answer (declareQueue self) := by
  unfold declareQueue
  dsimp only
  split
  · exact bind_declares (logged_declares (bind_declares (ask_declares rfl) fun _ =>
      pure_declares ())) fun _ => pure_declares _
  · exact bind_declares (ask_declares rfl) fun _ => pure_declares _

theorem countP_consumes {α : Type} {p : Setup α} (h : Declares answer p) :
    (p.exec answer).1.countP consumes = 0 := by
  rw [List.countP_eq_zero]
  exact fun e he => by simp [h e he]

/-- How many consumers were registered when a set-up ended so. -/
def registered : Except Raised Unit → Nat
  | .ok _ => 1
  | .error _ => 0

/-- Everything before `basic_consume`. -/
theorem bind_consumes {α : Type} {p : Setup α} {f : α → Setup Unit} (h : Declares answer p)
    (hf : ∀ a, ((f a).exec answer).1.countP consumes = registered ((f a).exec answer).2) :
    ((p.bind f).exec answer).1.countP consumes = registered ((p.bind f).exec answer).2 := by
  rw [Program.exec_bind]
  cases hr : (p.exec answer).2 with
  | ok a => rw [List.countP_append, countP_consumes h, hf a, Nat.zero_add]
  | error x => exact countP_consumes h

theorem basicConsume_consumes (queue : Value) (wrapper : Wrapper) (autoAck : Bool) :
    ((ask (.basicConsume queue wrapper autoAck) id : Setup Unit).exec answer).1.countP consumes =
      registered ((ask (.basicConsume queue wrapper autoAck) id : Setup Unit).exec answer).2 := by
  rw [Program.exec_ask]
  cases hr : answer (.basicConsume queue wrapper autoAck) <;> simp [consumes, registered]

/-- **A set-up that returns has registered one consumer**, and one that raises
none. -/
theorem setup_consumes (self : Config) (answer : (o : Op) → Op.Ans o) :
    ((setupConsumer self).exec answer).1.countP consumes =
      registered ((setupConsumer self).exec answer).2 := by
  refine bind_consumes applyQos_declares fun _ => ?_
  refine bind_consumes declareQueue_declares fun queueName => ?_
  refine bind_consumes (logged_declares (ask_declares rfl)) fun _ => ?_
  refine bind_consumes (logged_declares (ask_declares rfl)) fun _ => ?_
  exact basicConsume_consumes queueName _ _

end ListenerSetup

end MqAdapters
