import MqAdapters.Delivery.Sync
import MqAdapters.Delivery.Async

/-!
# The three paths as crews

`deliveryCrew path self d` is everything that handling the delivery `d` on
`path` sets going, in every interleaving: the wrapper or task itself, the
callback that `submit` schedules with its `_on_done`, whichever thread runs that,
and the function that `add_callback_threadsafe` queues.  `deliveries path self` is
any number of deliveries on one path, each arriving at any time and interleaved
with all others.

A call that is accepted starts its program once, and one that raises starts
nothing: this is what the executor and pika document.

Two readings of a call are used in every statement: `Call.finish`, how it ends
the user callback, and `Call.broker`, what it asks of the broker.
-/

namespace MqAdapters

open Python Theory Code

/-- The three delivery paths for `auto_ack=False`. -/
inductive Path
  | internal
  | offload
  | async
  deriving DecidableEq

/-- The programs that handling a delivery consists of. -/
inductive Job
  | direct
  | offloading
  | task
  | work
  | scheduled (schedule : Schedule)

/-- The program a path starts with. -/
def Path.job : Path → Job
  | .internal => .direct
  | .offload => .offloading
  | .async => .task

def Job.code (self : Settings) (d : Delivery) : Job → Code Unit
  | .direct => (⟨self, false⟩ : Listener).onMessage d.channel d.method d.properties d.body
  | .offloading => offloadWrapper ⟨self, true⟩ d.channel d.method d.properties d.body
  | .task => runHandler self d.message
  | .work => offloaded self d.channel d.method d.properties d.body
  | .scheduled schedule => schedule.run d.channel d.properties d.body

/-- The program that a call starts when it is accepted. -/
def started : Call → List Job
  | ⟨.submit, r⟩ => match r with
    | .ok _ => [.work]
    | .error _ => []
  | ⟨.addCallbackThreadsafe schedule, r⟩ => match r with
    | .ok _ => [.scheduled schedule]
    | .error _ => []
  | _ => []

/-- A delivery under way. -/
abbrev Handling := Crew Op Op.Ans Raised Job

/-- Everything that handling `d` on `path` sets going. -/
def deliveryCrew (path : Path) (self : Settings) (d : Delivery) :
    Machine Handling (Nat × (∀ o, Op.Ans o)) :=
  crew (Job.code self d) started path.job

/-- Any number of deliveries on one path. -/
def deliveries (path : Path) (self : Settings) :
    Machine (List (Delivery × Handling)) (Delivery ⊕ (Nat × Nat × (∀ o, Op.Ans o))) :=
  Machine.family (deliveryCrew path self)

/-- The condition that every call is answered as `allowed` says. -/
def deliveryAnswers (allowed : Call → Prop) :
    List (Delivery × Handling) → Delivery ⊕ (Nat × Nat × (∀ o, Op.Ans o)) → Prop :=
  Machine.familyStep fun _ => answers allowed

/-- Every answer is allowed. -/
def anyAnswer : Call → Prop := fun _ => True

@[simp] theorem anyAnswer_iff (e : Call) : anyAnswer e ↔ True := Iff.rfl

theorem delivery_reach {path : Path} {self : Settings} {allowed : Call → Prop}
    {sys : List (Delivery × Handling)}
    (hs : (deliveries path self).Reach (deliveryAnswers allowed) sys)
    {d : Delivery} {s : Handling} (hd : (d, s) ∈ sys) :
    (deliveryCrew path self d).Reach (answers allowed) s := by
  have h := Machine.family_member hs (d, s) hd
  exact h

/-- The deliveries of one path seen at a delivery that runs on its own. -/
theorem reach_delivery {path : Path} {self : Settings} {allowed : Call → Prop} {d : Delivery}
    {s : Handling} (hs : (deliveryCrew path self d).Reach (answers allowed) s) :
    (deliveries path self).Reach (deliveryAnswers allowed) [(d, s)] := by
  have h := Machine.family_of_member (F := deliveryCrew path self)
    (c := fun _ => answers allowed) hs
  exact h

/-- A delivery handled against fixed answers. -/
def handled (path : Path) (self : Settings) (d : Delivery) (ans : ∀ o, Op.Ans o) (is : List Nat) :
    Handling :=
  play (Job.code self d) started ans (deliveryCrew path self d).init is

theorem handled_reach {path : Path} {self : Settings} {d : Delivery} {allowed : Call → Prop}
    {ans : ∀ o, Op.Ans o} (hall : ∀ o, allowed ⟨o, ans o⟩) (is : List Nat) :
    (deliveryCrew path self d).Reach (answers allowed) (handled path self d ans is) :=
  play_reach hall is Machine.Reach.init

/-- Nothing is stopped, the callback ends as given, an ack as given and a publish
as given, and everything else works. -/
def answering (callback : Except Raised Returned) (ack publish : Except Raised Unit) :
    ∀ o, Op.Ans o
  | .stopMe => false
  | .acquire => .ok ()
  | .release => .ok ()
  | .submit => .ok ()
  | .addDoneCallback => true
  | .callback _ _ => callback
  | .awaitResult => callback.map fun _ => ()
  | .connectionIsOpen => true
  | .addCallbackThreadsafe _ => .ok ()
  | .basicPublish _ _ _ _ _ => publish
  | .basicAck _ _ => ack
  | .basicNack _ _ _ => .ok ()
  | .semaphoreIsSet => true
  | .channelIsSet => true
  | .defaultExchangePublish _ _ _ => publish
  | .inc _ => ()

/-! ## Readings of a call -/

/-- How a call ends the user callback, if it does.  The sync paths call a plain
function; the async path also awaits the coroutine that the callback may
return. -/
def finish (path : Path) : Call → Option (Except Raised Unit)
  | ⟨.callback _ _, r⟩ => match r with
    | .ok returned => if path = .async ∧ returned = .coroutine then none else some (.ok ())
    | .error x => some (.error x)
  | ⟨.awaitResult, r⟩ => if path = .async then some r else none
  | _ => none

/-- The callback, and its coroutine on the async path, has completed normally. -/
def Completed (path : Path) (h : List Call) : Prop := ∃ e ∈ h, finish path e = some (.ok ())

/-- The callback, or its coroutine on the async path, has raised. -/
def Failed (path : Path) (h : List Call) : Prop := ∃ e ∈ h, ∃ x, finish path e = some (.error x)

/-- What the broker is asked to do. -/
inductive BrokerAction
  | publish (exchange routingKey : String) (body : Bytes)
  | ack (channel deliveryTag : Nat)
  | nack (channel deliveryTag : Nat) (requeue : Bool)
  deriving DecidableEq

/-- What a call asks of the broker, and how that ended. -/
def broker : Call → Option (BrokerAction × Except Raised Unit)
  | ⟨.basicPublish _ exchange routingKey body _, r⟩ => some (.publish exchange routingKey body, r)
  | ⟨.defaultExchangePublish routingKey body _, r⟩ => some (.publish "" routingKey body, r)
  | ⟨.basicAck ch deliveryTag, r⟩ => some (.ack ch deliveryTag, r)
  | ⟨.basicNack ch deliveryTag requeue, r⟩ => some (.nack ch deliveryTag requeue, r)
  | _ => none

/-- The action `a` was asked for and ended as `r`. -/
def Ended (h : List Call) (a : BrokerAction) (r : Except Raised Unit) : Prop :=
  ∃ e ∈ h, broker e = some (a, r)

/-- The queue a failed delivery is to be published to, if it is poison. -/
def Delivery.poisonQueue (self : Settings) (d : Delivery) : Option String :=
  self.config.poisonQueue (retryAttemptFromHeaders (headersOf d.properties))

section

variable {path : Path} {h h' : List Call} {e : Call}

theorem Completed.mono (hs : h.Sublist h') (hc : Completed path h) : Completed path h' := by
  obtain ⟨e, he, hf⟩ := hc
  exact ⟨e, hs.subset he, hf⟩

theorem Failed.mono (hs : h.Sublist h') (hc : Failed path h) : Failed path h' := by
  obtain ⟨e, he, hf⟩ := hc
  exact ⟨e, hs.subset he, hf⟩

theorem Ended.mono {a : BrokerAction} {r : Except Raised Unit} (hs : h.Sublist h')
    (hc : Ended h a r) : Ended h' a r := by
  obtain ⟨e, he, hf⟩ := hc
  exact ⟨e, hs.subset he, hf⟩

@[simp] theorem completed_nil : ¬ Completed path [] := by simp [Completed]

@[simp] theorem completed_cons :
    Completed path (e :: h) ↔ finish path e = some (.ok ()) ∨ Completed path h := by
  simp [Completed]

@[simp] theorem completed_append :
    Completed path (h ++ h') ↔ Completed path h ∨ Completed path h' := by
  simp [Completed, or_and_right, exists_or]

@[simp] theorem failed_nil : ¬ Failed path [] := by simp [Failed]

@[simp] theorem failed_cons :
    Failed path (e :: h) ↔ (∃ x, finish path e = some (.error x)) ∨ Failed path h := by
  simp [Failed]

@[simp] theorem failed_append : Failed path (h ++ h') ↔ Failed path h ∨ Failed path h' := by
  simp [Failed, or_and_right, exists_or]

@[simp] theorem ended_nil {a : BrokerAction} {r : Except Raised Unit} : ¬ Ended [] a r := by
  simp [Ended]

@[simp] theorem ended_cons {a : BrokerAction} {r : Except Raised Unit} :
    Ended (e :: h) a r ↔ broker e = some (a, r) ∨ Ended h a r := by
  simp [Ended]

@[simp] theorem ended_append {a : BrokerAction} {r : Except Raised Unit} :
    Ended (h ++ h') a r ↔ Ended h a r ∨ Ended h' a r := by
  simp [Ended, or_and_right, exists_or]

end

end MqAdapters
