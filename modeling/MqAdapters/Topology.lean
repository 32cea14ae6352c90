import MqAdapters.AsyncListener.Model
import MqAdapters.Listener.Setup

/-!
# What the two listeners declare

`AsyncListener.start` declares an exchange and a queue and binds them, as
`Listener._setup_channel_and_consumer` does.  Both read the destination, but not
the same keys of it, and not the queue arguments in the same way.

* `AsyncSetup.declare`: the awaited calls of `start` up to the bind.
* `Topology`: what is asked of the broker, with what the broker does not tell apart
  written in one way.
* `same_topology_iff`: for which destinations the two ask for the same.
-/

namespace MqAdapters

open Python Theory

/-! ## The declarations of the async listener -/

namespace AsyncSetup

structure Config extends AsyncListener.Config where
  predefinedQueue : Bool

/-- The awaited calls on the connection, the channel and the queue.  Parameters
that are not passed have aio-pika's defaults, which are all false. -/
inductive Op
  | channel
  | setQos (prefetchCount : Int)
  | declareExchange (name type : Value) (durable autoDelete : Bool)
  | declareQueue (name : Value) (durable exclusive autoDelete : Bool) (arguments : Arguments)
  | bind (exchange routingKey : Value)

@[reducible] def Op.Ans : Op → Type := fun _ => Except Raised Unit

abbrev Setup := Program Op Op.Ans Raised

abbrev Call := Event Op Op.Ans

open Program (ask)

/-- `bool(self._destination.get(key, default))`. -/
def flag (destination : Dict) (key : String) (default : Bool) : Bool :=
  (destination.getD key (.ofBool default)).truthy

/-- The first of the three keys with a true value. -/
def queueArguments (destination : Dict) : Value :=
  ((destination.get "queue_arguments").or (destination.get "queue_args")).or
    (destination.get "queue_declare_arguments")

variable (self : Config)

def declareQueue : Setup Unit := do
  let destination := self.settings.destination
  let predefined := destination.get "predefined_queue_name"
  let arguments := Arguments.ofValue (queueArguments destination)
  if self.predefinedQueue && predefined.truthy then
    ask (.declareQueue predefined (flag destination "queue_durable" true) false
      (flag destination "queue_auto_delete" false) arguments) id
  else
    ask (.declareQueue (.str "") false true true arguments) id

/-- `start`, from the channel to the bind. -/
def declare : Setup Unit := do
  let destination := self.settings.destination
  ask .channel id
  if self.prefetches then
    ask (.setQos self.prefetchCount) id
  ask (.declareExchange (destination.get "exchange_name") (destination.get "exchange_type")
    (flag destination "exchange_durable" true) (flag destination "exchange_auto_delete" false)) id
  declareQueue self
  ask (.bind (destination.get "exchange_name")
    ((destination.get "routing_key").or (.str ""))) id

end AsyncSetup

/-! ## What the broker is asked for -/

structure Exchange where
  name : Value
  type : Value
  durable : Bool
  autoDelete : Bool

/-- A queue, and the table of its arguments: `none` if they are no table. -/
structure Queue where
  name : Value
  durable : Bool
  exclusive : Bool
  autoDelete : Bool
  arguments : Option Dict

structure Binding where
  exchange : Value
  key : Value

/-- Everything a set-up declares. -/
structure Topology where
  exchanges : List Exchange
  queues : List Queue
  bindings : List Binding

/-- The table that is sent: no arguments are an empty one, and so is any object
that is false. -/
def Arguments.sent : Arguments → Option Dict
  | .none => some []
  | .table entries => some entries
  | .other v => if v.truthy then Option.none else some []

/-- The comparison takes the binding key `None` for the empty one; that is a convention
of its own. -/
def bindingKey : Value → Value
  | .none => .str ""
  | v => v

namespace ListenerSetup

def exchangeOf : Op → Option Exchange
  | .exchangeDeclare name type durable autoDelete => some ⟨name, type, durable, autoDelete⟩
  | _ => none

def queueOf : Op → Option Queue
  | .queueDeclare name durable exclusive autoDelete arguments =>
    some ⟨name, durable, exclusive, autoDelete, arguments.sent⟩
  | _ => none

def bindingOf : Op → Option Binding
  | .queueBind _ exchange routingKey => some ⟨exchange, bindingKey routingKey⟩
  | _ => none

/-- Every call succeeds; the broker names an exclusive queue. -/
def succeeds (name : String) : (o : Op) → Op.Ans o
  | .queueDeclare .. => .ok name
  | .channel | .basicQos .. | .exchangeDeclare .. | .queueBind .. | .basicConsume .. => .ok ()

/-- What `_setup_channel_and_consumer` declares when every call succeeds. -/
def topology (self : Config) (name : String) : Topology :=
  let ops := ((setupChannelAndConsumer self).exec (succeeds name)).1.map Event.op
  ⟨ops.filterMap exchangeOf, ops.filterMap queueOf, ops.filterMap bindingOf⟩

end ListenerSetup

namespace AsyncSetup

def exchangeOf : Op → Option Exchange
  | .declareExchange name type durable autoDelete => some ⟨name, type, durable, autoDelete⟩
  | _ => none

def queueOf : Op → Option Queue
  | .declareQueue name durable exclusive autoDelete arguments =>
    some ⟨name, durable, exclusive, autoDelete, arguments.sent⟩
  | _ => none

def bindingOf : Op → Option Binding
  | .bind exchange routingKey => some ⟨exchange, bindingKey routingKey⟩
  | _ => none

/-- What `start` declares when every call succeeds. -/
def topology (self : Config) : Topology :=
  let ops := ((declare self).exec fun _ => .ok ()).1.map Event.op
  ⟨ops.filterMap exchangeOf, ops.filterMap queueOf, ops.filterMap bindingOf⟩

end AsyncSetup

/-! ## What each asks for -/

def ListenerSetup.queue (self : ListenerSetup.Config) : Queue :=
  let predefined := self.destination.get "predefined_queue_name"
  if self.predefinedQueue && predefined.truthy then
    ⟨predefined, true, false, false, some (resolveQueueArguments self.destination)⟩
  else ⟨.str "", false, true, true, some []⟩

def AsyncSetup.queue (self : AsyncSetup.Config) : Queue :=
  let destination := self.settings.destination
  let predefined := destination.get "predefined_queue_name"
  let arguments := (Arguments.ofValue (queueArguments destination)).sent
  if self.predefinedQueue && predefined.truthy then
    ⟨predefined, flag destination "queue_durable" true, false,
      flag destination "queue_auto_delete" false, arguments⟩
  else ⟨.str "", false, true, true, arguments⟩

/-- A call that is logged if it fails does not. -/
theorem ListenerSetup.exec_logged {p : Setup Unit} {answer : (o : Op) → Op.Ans o}
    (h : (p.exec answer).2 = .ok ()) : (logged p).exec answer = ((p.exec answer).1, .ok ()) := by
  rw [logged, Program.exec_handle, h]

theorem ListenerSetup.applyQos_exec (self : ListenerSetup.Config) (name : String) :
    ∃ calls, (applyQos self).exec (succeeds name) = (calls, .ok ()) ∧
      ∀ e ∈ calls, exchangeOf e.op = none ∧ queueOf e.op = none ∧ bindingOf e.op = none := by
  unfold applyQos
  cases self.prefetchSettings with
  | none => exact ⟨[], rfl, by simp⟩
  | some p =>
    exact ⟨[⟨.basicQos p.prefetchSize p.prefetchCount, .ok ()⟩], rfl,
      by simp [exchangeOf, queueOf, bindingOf]⟩

theorem ListenerSetup.declareQueue_exec (self : ListenerSetup.Config) (name : String) :
    ∃ arguments queueName, arguments.sent = (queue self).arguments ∧
      (declareQueue self).exec (succeeds name) = ([⟨.queueDeclare (queue self).name
        (queue self).durable (queue self).exclusive (queue self).autoDelete arguments, .ok name⟩],
        .ok queueName) := by
  by_cases hp : (self.predefinedQueue &&
      (self.destination.get "predefined_queue_name").truthy) = true
  · have hqueue : queue self = ⟨self.destination.get "predefined_queue_name", true, false, false,
        some (resolveQueueArguments self.destination)⟩ := if_pos hp
    rw [hqueue, declareQueue, if_pos hp]
    cases resolveQueueArguments self.destination <;> exact ⟨_, _, rfl, rfl⟩
  · have hqueue : queue self = ⟨.str "", false, true, true, some []⟩ := if_neg hp
    rw [hqueue, declareQueue, if_neg hp]
    exact ⟨_, _, rfl, rfl⟩

theorem ListenerSetup.topology_eq (self : ListenerSetup.Config) (name : String) :
    topology self name =
      ⟨[⟨self.destination.get "exchange_name", self.destination.get "exchange_type", true, false⟩],
        [queue self], [⟨self.destination.get "exchange_name",
          bindingKey (self.destination.get "routing_key")⟩]⟩ := by
  have hnone : ∀ {α : Type} (f : Op → Option α) (calls : List Call),
      (∀ e ∈ calls, f e.op = none) → (calls.map Event.op).filterMap f = [] := by
    intro α f calls h
    simpa [List.filterMap_eq_nil_iff] using h
  obtain ⟨calls, hqos, hcalls⟩ := applyQos_exec self name
  have hex := hnone exchangeOf calls fun e he => (hcalls e he).1
  have hqu := hnone queueOf calls fun e he => (hcalls e he).2.1
  have hbi := hnone bindingOf calls fun e he => (hcalls e he).2.2
  obtain ⟨arguments, queueName, hsent, hdeclare⟩ := declareQueue_exec self name
  unfold topology setupChannelAndConsumer setupConsumer
  simp [Program.exec_bind, exec_logged, hqos, hdeclare, succeeds, List.filterMap_cons, hex, hqu,
    hbi, hsent, exchangeOf, queueOf, bindingOf]

theorem AsyncSetup.declareQueue_exec (self : AsyncSetup.Config) :
    ∃ arguments, arguments.sent = (queue self).arguments ∧
      (declareQueue self).exec (fun _ => .ok ()) = ([⟨.declareQueue (queue self).name
        (queue self).durable (queue self).exclusive (queue self).autoDelete arguments, .ok ()⟩],
        .ok ()) := by
  by_cases hp : (self.predefinedQueue &&
      (self.settings.destination.get "predefined_queue_name").truthy) = true
  · have hqueue : queue self = ⟨self.settings.destination.get "predefined_queue_name",
        flag self.settings.destination "queue_durable" true, false,
        flag self.settings.destination "queue_auto_delete" false,
        (Arguments.ofValue (queueArguments self.settings.destination)).sent⟩ := if_pos hp
    rw [hqueue, declareQueue, if_pos hp]
    exact ⟨_, rfl, rfl⟩
  · have hqueue : queue self = ⟨.str "", false, true, true,
        (Arguments.ofValue (queueArguments self.settings.destination)).sent⟩ := if_neg hp
    rw [hqueue, declareQueue, if_neg hp]
    exact ⟨_, rfl, rfl⟩

theorem AsyncSetup.topology_eq (self : AsyncSetup.Config) :
    topology self =
      ⟨[⟨self.settings.destination.get "exchange_name",
          self.settings.destination.get "exchange_type",
          flag self.settings.destination "exchange_durable" true,
          flag self.settings.destination "exchange_auto_delete" false⟩],
        [queue self], [⟨self.settings.destination.get "exchange_name",
          bindingKey ((self.settings.destination.get "routing_key").or (.str ""))⟩]⟩ := by
  obtain ⟨arguments, hsent, hdeclare⟩ := declareQueue_exec self
  unfold topology declare
  by_cases hq : self.prefetches = true <;>
    simp [hq, Program.exec_bind, hdeclare, List.filterMap_cons, hsent, exchangeOf,
      queueOf, bindingOf]

/-! ## Where they agree -/

def isDict (v : Value) : Bool := v.asDict.isSome

/-- The values of the three keys for queue arguments. -/
def argumentValues (destination : Dict) : List Value := queueArgsKeys.map destination.get

/-- The first true value among the queue arguments, if there is one, is the first
dictionary among them. -/
def argumentsAgree (destination : Dict) : Prop :=
  ∀ v, (argumentValues destination).find? Value.truthy = some v →
    (argumentValues destination).find? isDict = some v

/-- The destinations for which both listeners declare the same: the exchange is
durable and not deleted automatically, the binding key is true, empty or absent, a
predefined queue is durable and not deleted automatically and its arguments agree,
and an exclusive queue has none. -/
def declaresSame (destination : Dict) (predefinedQueue : Bool) : Prop :=
  (AsyncSetup.flag destination "exchange_durable" true = true ∧
    AsyncSetup.flag destination "exchange_auto_delete" false = false) ∧
  ((destination.get "routing_key").truthy = true ∨
    bindingKey (destination.get "routing_key") = .str "") ∧
  if predefinedQueue && (destination.get "predefined_queue_name").truthy then
    AsyncSetup.flag destination "queue_durable" true = true ∧
      AsyncSetup.flag destination "queue_auto_delete" false = false ∧ argumentsAgree destination
  else ∀ v ∈ argumentValues destination, v.truthy = false

/-- The table that the async listener sends. -/
theorem sent_ofValue (v : Value) :
    (Arguments.ofValue v).sent = if v.truthy then v.asDict else some [] := by
  cases v with
  | none => rfl
  | dict text entries => cases entries <;> rfl
  | str s => rfl
  | int n => rfl
  | list text items => rfl
  | other text n b => rfl

/-- What is sent is the first true value, if that is a table. -/
theorem sent_or (a b c : Value) : (Arguments.ofValue ((a.or b).or c)).sent =
    match [a, b, c].find? Value.truthy with
    | none => some []
    | some v => v.asDict := by
  rw [sent_ofValue]
  by_cases ha : a.truthy = true
  · simp [Value.or, ha]
  · by_cases hb : b.truthy = true
    · simp [Value.or, ha, hb]
    · by_cases hc : c.truthy = true <;> simp [Value.or, ha, hb, hc]

theorem sent_queueArguments (destination : Dict) :
    (Arguments.ofValue (AsyncSetup.queueArguments destination)).sent =
      match (argumentValues destination).find? Value.truthy with
      | none => some []
      | some v => v.asDict :=
  sent_or _ _ _

/-- The first dictionary, as such. -/
theorem findSome?_asDict (l : List Value) :
    l.findSome? Value.asDict = (l.find? isDict).bind Value.asDict := by
  induction l with
  | nil => rfl
  | cons v l ih =>
    rw [List.findSome?_cons, List.find?_cons, ih]
    cases hv : v.asDict with
    | none => simp [isDict, hv]
    | some entries => simp [isDict, hv]

theorem resolveQueueArguments_eq (destination : Dict) :
    resolveQueueArguments destination =
      (((argumentValues destination).find? isDict).bind Value.asDict).getD [] := by
  rw [← findSome?_asDict, argumentValues, List.findSome?_map]
  rfl

theorem isDict_iff {v : Value} : isDict v = true ↔ ∃ entries, v.asDict = some entries :=
  Option.isSome_iff_exists

/-- A true dictionary has entries. -/
theorem truthy_of_asDict {v : Value} {entries : Dict} (h : v.asDict = some entries) :
    v.truthy = true ↔ entries ≠ [] := by
  cases v with
  | dict text es =>
    obtain rfl : es = entries := Option.some.inj h
    cases es <;> simp [Value.truthy]
  | _ => cases h

/-- If the first true value is a dictionary with entries, and the first dictionary
has entries, they are the same. -/
theorem find?_eq_of_truthy {l : List Value} {v w : Value} (hv : l.find? Value.truthy = some v)
    (hw : l.find? isDict = some w) (hvd : isDict v = true)
    (hwt : w.truthy = true) : w = v := by
  induction l with
  | nil => cases hv
  | cons x l ih =>
    rw [List.find?_cons] at hv hw
    by_cases hx : x.truthy = true
    · rw [hx] at hv
      obtain rfl := Option.some.inj hv
      rw [hvd] at hw
      exact (Option.some.inj hw).symm
    · by_cases hxd : isDict x = true
      · rw [hxd] at hw
        obtain rfl := Option.some.inj hw
        exact absurd hwt hx
      · exact ih (by simpa [hx] using hv) (by simpa [hxd] using hw)

/-- The arguments of a predefined queue are the same when `argumentsAgree`. -/
theorem sent_eq_iff (destination : Dict) :
    (Arguments.ofValue (AsyncSetup.queueArguments destination)).sent =
      some (resolveQueueArguments destination) ↔ argumentsAgree destination := by
  rw [sent_queueArguments, resolveQueueArguments_eq]
  unfold argumentsAgree
  generalize argumentValues destination = l
  rcases hv : l.find? Value.truthy with _ | v
  · -- no true value: every dictionary is empty
    have hempty : ((l.find? isDict).bind Value.asDict).getD [] = [] := by
      rcases hw : l.find? isDict with _ | w
      · rfl
      · obtain ⟨entries, hentries⟩ := isDict_iff.mp (List.find?_some hw)
        have hfalse := List.find?_eq_none.mp hv w (List.mem_of_find?_eq_some hw)
        rw [truthy_of_asDict hentries, not_not] at hfalse
        rw [Option.bind_some, hentries, hfalse]
        rfl
    simp [hempty]
  · have htrue : v.truthy = true := List.find?_some hv
    simp only [Option.some.injEq, forall_eq']
    constructor
    · intro h
      rcases hw : l.find? isDict with _ | w
      · have hmem := List.find?_eq_none.mp hw v (List.mem_of_find?_eq_some hv)
        exact absurd (isDict_iff.mpr ⟨_, h⟩) hmem
      · obtain ⟨entries, hentries⟩ := isDict_iff.mp (List.find?_some hw)
        rw [hw, Option.bind_some, hentries, Option.getD_some] at h
        have hwt : w.truthy = true :=
          (truthy_of_asDict hentries).mpr ((truthy_of_asDict h).mp htrue)
        rw [find?_eq_of_truthy hv hw (isDict_iff.mpr ⟨_, h⟩) hwt]
    · intro h
      obtain ⟨entries, hentries⟩ := isDict_iff.mp (List.find?_some h)
      rw [h, Option.bind_some, hentries, Option.getD_some]

/-- An exclusive queue of the async listener has no arguments when no value of the
keys is true. -/
theorem sent_eq_nil_iff (destination : Dict) :
    (Arguments.ofValue (AsyncSetup.queueArguments destination)).sent = some [] ↔
      ∀ v ∈ argumentValues destination, v.truthy = false := by
  rw [sent_queueArguments]
  generalize argumentValues destination = l
  rcases hv : l.find? Value.truthy with _ | v
  · simpa using List.find?_eq_none.mp hv
  · have htrue : v.truthy = true := List.find?_some hv
    constructor
    · intro h
      exact absurd rfl ((truthy_of_asDict h).mp htrue)
    · intro h
      rw [h v (List.mem_of_find?_eq_some hv)] at htrue
      cases htrue

/-- The binding keys are the same if the key is true, empty or absent. -/
theorem bindingKey_eq_iff (v : Value) :
    bindingKey v = bindingKey (v.or (.str "")) ↔ v.truthy = true ∨ bindingKey v = .str "" := by
  by_cases hv : v.truthy = true
  · simp [Value.or, hv]
  · simp [Value.or, hv, bindingKey]

/-- **The two listeners declare the same exactly when `declaresSame`**, whatever
their other settings are and whatever the broker names an exclusive queue. -/
theorem same_topology_iff (destination : Dict) (predefinedQueue : Bool)
    (prefetchSettings : Option ListenerSetup.PrefetchSettings) (offload autoAck : Bool)
    (async : AsyncListener.Config) (name : String) :
    ListenerSetup.topology ⟨destination, predefinedQueue, prefetchSettings, offload, autoAck⟩ name =
      AsyncSetup.topology ⟨{ async with
        settings := { async.settings with destination := destination } }, predefinedQueue⟩ ↔
    declaresSame destination predefinedQueue := by
  rw [ListenerSetup.topology_eq, AsyncSetup.topology_eq]
  unfold ListenerSetup.queue AsyncSetup.queue declaresSame
  simp only [Topology.mk.injEq, List.cons.injEq, and_true, Exchange.mk.injEq, Binding.mk.injEq,
    true_and, bindingKey_eq_iff]
  refine and_congr ?_ ((and_comm).trans (and_congr Iff.rfl ?_))
  · constructor <;> rintro ⟨h, h'⟩ <;> exact ⟨h.symm, h'.symm⟩
  · by_cases hp : (predefinedQueue && (destination.get "predefined_queue_name").truthy) = true
    · simp only [hp, if_true, Queue.mk.injEq, true_and]
      rw [← sent_eq_iff]
      constructor
      · rintro ⟨h, h', hargs⟩
        exact ⟨h.symm, h'.symm, hargs.symm⟩
      · rintro ⟨h, h', hargs⟩
        exact ⟨h.symm, h'.symm, hargs.symm⟩
    · simp only [hp, Bool.false_eq_true, if_false, Queue.mk.injEq, true_and]
      rw [← sent_eq_nil_iff]
      exact eq_comm

/-- An exchange that is not durable. -/
def transientExchange : Dict :=
  [("exchange_name", .str "events"), ("exchange_type", .str "direct"),
    ("exchange_durable", .ofBool false)]

/-- The sync listener declares it durable, the async one does not. -/
theorem different_topology :
    ListenerSetup.topology ⟨transientExchange, false, none, false, false⟩ "amq.gen" ≠
      AsyncSetup.topology ⟨⟨⟨transientExchange, false⟩, -1, none, 10⟩, false⟩ := by
  intro h
  rw [ListenerSetup.topology_eq, AsyncSetup.topology_eq] at h
  have hex := congrArg (fun t : Topology => t.exchanges.map Exchange.durable) h
  revert hex
  decide

end MqAdapters
