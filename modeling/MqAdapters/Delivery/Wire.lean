import MqAdapters.Delivery.AckSafety

/-!
# What the paths put on the wire

`Lawful` says when the broker is asked for something.  The broker also counts on where
and how: `wireRules` has the sync paths publish on the channel of the delivery and with
its properties, and the async path on the default exchange with the copied ones.  No path
settles with `auto_ack`, and a nack without `requeue` needs `on_error` to be `dead_letter`;
on the sync paths it also needs a callback that raised and a delivery that is not poison.

`wrote_once`: of the acks and nacks of a delivery at most one succeeds.
-/

namespace MqAdapters

open Python Theory Code

/-- The properties that the path publishes a dead letter with. -/
def Path.deadLetter (path : Path) (d : Delivery) : Option BasicProperties :=
  match path with
  | .async => some d.message.deadLetter
  | _ => d.properties

/-- The rules of the wire.  A function that handles a failure is scheduled for one, with
the configuration of the destination. -/
def wireRules (path : Path) (self : Settings) (d : Delivery) : Program.Rules Op Op.Ans Job where
  allowed := anyAnswer
  guard h
    | .basicPublish ch _ _ _ properties => path ≠ .async ∧ ch = d.channel ∧
        properties = d.properties
    | .basicAck _ _ => self.autoAck = false
    | .basicNack _ _ requeue => self.autoAck = false ∧ (requeue = false →
        self.config.onError = .deadLetter ∧
          (path ≠ .async → Failed path h ∧ d.poisonQueue self = none))
    | .defaultExchangePublish _ _ properties => path = .async ∧ properties = d.message.deadLetter
    | _ => True
  spawn := started
  pre
    | .task, _ => path = .async
    | .scheduled (.ack _), _ => self.autoAck = false
    | .scheduled (.fail _ cfg attempt), h => path ≠ .async ∧ self.autoAck = false ∧
        Failed path h ∧ cfg = self.config ∧ cfg.poisonQueue attempt = d.poisonQueue self
    | _, _ => path ≠ .async

section

variable {path : Path} {self : Settings} {d : Delivery} {h : List Call} {s : Handling}

@[simp] theorem wireRules_guard (o : Op) : (wireRules path self d).guard h o ↔ match o with
    | .basicPublish ch _ _ _ properties => path ≠ .async ∧ ch = d.channel ∧
        properties = d.properties
    | .basicAck _ _ => self.autoAck = false
    | .basicNack _ _ requeue => self.autoAck = false ∧ (requeue = false →
        self.config.onError = .deadLetter ∧
          (path ≠ .async → Failed path h ∧ d.poisonQueue self = none))
    | .defaultExchangePublish _ _ properties => path = .async ∧ properties = d.message.deadLetter
    | _ => True := by
  cases o <;> rfl

@[simp] theorem wireRules_allowed (e : Call) : (wireRules path self d).allowed e ↔ True := Iff.rfl

@[simp] theorem wireRules_spawn : (wireRules path self d).spawn = started := rfl

theorem internalWrapper_wire : (internalWrapper self d.channel d.method d.properties d.body).wp
    (wireRules path self d) (fun _ _ => True) h := by
  rcases self with ⟨dest, _ | _⟩
  all_goals simp [internalWrapper, Delivery.method, started]

theorem scheduled_wire {s : Schedule} (hs : (wireRules path self d).pre (.scheduled s) h) :
    (s.run d.channel d.properties d.body).wp (wireRules path self d)
      (fun _ r => r ≠ .error .exception) h := by
  cases s with
  | ack tag =>
    have hauto : self.autoAck = false := hs
    simp [Schedule.run, ackOffloaded, started, hauto]
  | fail tag cfg attempt =>
    obtain ⟨hp, hauto, hf, rfl, hpoison⟩ := hs
    rcases hq : d.poisonQueue self with _ | q
    · simp [Schedule.run, handleFail, Program.wp_ite, hpoison, hq, started, hf, hauto]
    · simp [Schedule.run, handleFail, hpoison, hq, started, dlProps_eq, hauto, hp]

theorem onDone_wire (hp : path ≠ .async) {exc : Option Raised} (hexc : exc ≠ none → Failed path h) :
    (onDone self d.channel d.method d.properties d.body exc).wp (wireRules path self d)
      (fun _ _ => True) h := by
  have hpre : ∀ h', self.autoAck = false → (wireRules path self d).pre
      (.scheduled (.of self d.properties d.deliveryTag exc)) (h ++ h') := by
    intro h' hauto
    rcases exc with _ | x
    · exact hauto
    · exact ⟨hp, hauto, Failed.mono (List.sublist_append_left _ _) (hexc (by simp)), rfl, rfl⟩
  have hrun : ∀ {h' Q}, self.autoAck = false → (∀ h'' r, r ≠ .error .exception → Q h'' r) →
      ((Schedule.of self d.properties d.deliveryTag exc).run d.channel d.properties d.body).wp
        (wireRules path self d) Q (h ++ h') :=
    fun hauto hQ => Program.wp_mono hQ _ _ (scheduled_wire (hpre _ hauto))
  rcases exc with _ | x
  all_goals
    simp [onDone, Delivery.method, Program.wp_ite, started]
    exact fun hauto => ⟨hrun hauto (by simp), hpre _ hauto, hrun hauto (by simp)⟩

theorem offloaded_wire (hp : path ≠ .async) :
    (offloaded self d.channel d.method d.properties d.body).wp (wireRules path self d)
      (fun _ _ => True) h := by
  simp [offloaded, started]
  refine ⟨⟨?_, ?_, ?_⟩, ?_, ?_⟩
  all_goals exact onDone_wire hp (by simp [finish, hp])

theorem offloadWrapper_wire (hp : path ≠ .async) : (offloadWrapper ⟨self, true⟩ d.channel d.method
    d.properties d.body).wp (wireRules path self d) (fun _ _ => True) h := by
  have hdirect : ∀ {h' Q}, (∀ h'' r, Q h'' r) →
      (internalWrapper self d.channel d.method d.properties d.body).wp (wireRules path self d)
        Q h' :=
    fun hQ => Program.wp_mono (fun h'' r _ => hQ h'' r) _ _ internalWrapper_wire
  have hpre : ∀ h, (wireRules path self d).pre .work h := fun _ => hp
  simp [offloadWrapper, started, hpre]
  exact ⟨⟨hdirect (by simp), hdirect (by simp)⟩, hdirect (by simp)⟩

theorem handlerFailed_wire : (handlerFailed self d.message).wp (wireRules .async self d)
    (fun _ _ => True) h := by
  have hcfg : self.config.poisonQueue (retryAttemptFromHeaders d.message.headers) =
      d.poisonQueue self := rfl
  rcases hq : d.poisonQueue self with _ | q
  all_goals
    simp +contextual [handlerFailed, publishPoison, IncomingMessage.ack, IncomingMessage.nack, hcfg,
      hq, Program.wp_ite, started]

theorem runHandler_wire : (runHandler self d.message).wp (wireRules .async self d)
    (fun _ _ => True) h := by
  have hfailed : ∀ {h'}, (handlerFailed self d.message).wp (wireRules .async self d)
      (fun _ _ => True) h' := handlerFailed_wire
  simp +contextual [runHandler, IncomingMessage.ack, Program.wp_ite, started, hfailed]

theorem code_wire (l : Job) (h : List Call) (hl : (wireRules path self d).pre l h) :
    (l.code self d).wp (wireRules path self d) (fun _ _ => True) h := by
  cases l with
  | direct => exact Listener.wp_direct (fun _ _ _ => id) internalWrapper_wire
  | offloading => exact offloadWrapper_wire hl
  | task =>
    obtain rfl : path = .async := hl
    exact runHandler_wire
  | work => exact offloaded_wire hl
  | scheduled s => exact Program.wp_mono (fun _ _ _ => trivial) _ _ (scheduled_wire hl)

end

/-- **Every path keeps to it**, from any answers and in any interleaving. -/
theorem wire_of_trace {path : Path} {self : Settings} {d : Delivery} {s : Handling}
    (hs : (deliveryCrew path self d).Reach (answers anyAnswer) s) {p q : List Call} {e : Call}
    (hst : s.trace = p ++ e :: q) :
    ∃ h, h.Sublist p ∧ (wireRules path self d).guard h e.op := by
  have hkept : Kept (wireRules path self d) (fun _ _ _ => True) path.job s := by
    refine crew_kept code_wire ?_ hs
    cases path with
    | internal => exact (by decide : Path.internal ≠ .async)
    | offload => exact (by decide : Path.offload ≠ .async)
    | async => exact rfl
  exact hkept.guarded p e q hst

/-! ## At most one ack or nack succeeds -/

/-- The call is an ack or a nack that succeeded. -/
def wroteCost : Call → Nat
  | ⟨.basicAck _ _, r⟩ => match r with
    | .ok _ => 1
    | .error _ => 0
  | ⟨.basicNack _ _ _, r⟩ => match r with
    | .ok _ => 1
    | .error _ => 0
  | _ => 0

/-- Every program settles once at most. -/
def wroteFund : Job → Nat := fun _ => 1

section

variable {path : Path} {self : Settings} {d : Delivery} {h : List Call}

theorem internalWrapper_wrote : (internalWrapper self d.channel d.method d.properties d.body).wp
    (Program.free anyAnswer started)
    (fun h _ => Program.spent wroteCost started wroteFund h ≤ 1) [] := by
  rcases self with ⟨dest, _ | _⟩
  all_goals simp [internalWrapper, Delivery.method, started, wroteCost]

theorem scheduled_wrote (s : Schedule) : (s.run d.channel d.properties d.body).wp
    (Program.free anyAnswer started)
    (fun h r => Program.spent wroteCost started wroteFund h ≤ 1 ∧ r ≠ .error .exception) [] := by
  cases s with
  | ack tag => simp [Schedule.run, ackOffloaded, started, wroteCost]
  | fail tag cfg attempt =>
    rcases hq : cfg.poisonQueue attempt with _ | q
    all_goals simp [Schedule.run, handleFail, hq, Program.wp_ite, started, wroteCost]

theorem Minor.wrote {e : Call} (he : Minor e.op) : wroteCost e = 0 := by
  obtain ⟨o, r⟩ := e
  cases o with
  | inc | connectionIsOpen | addCallbackThreadsafe | release => rfl
  | _ => exact he.elim

theorem offloaded_wrote : (offloaded self d.channel d.method d.properties d.body).wp
    (Program.free anyAnswer started)
    (fun h _ => Program.spent wroteCost started wroteFund h ≤ 1) [] :=
  offloaded_spent (fun _ he => he.wrote) scheduled_wrote (fun _ _ => Nat.le_refl 1)
    fun _ _ => Nat.le_refl 1

theorem offloadWrapper_wrote : (offloadWrapper ⟨self, true⟩ d.channel d.method d.properties
    d.body).wp (Program.free anyAnswer started)
    (fun h _ => Program.spent wroteCost started wroteFund h ≤ 1) [] := by
  -- nothing was spent before the delivery is handled directly
  have hinternal : ∀ {h : List Call}, Program.spent wroteCost started wroteFund h = 0 →
      (internalWrapper self d.channel d.method d.properties d.body).wp
        (Program.free anyAnswer started)
        (fun h _ => Program.spent wroteCost started wroteFund h ≤ 1) h := by
    intro h hh
    rw [← List.append_nil h, Program.wp_free_append]
    refine Program.wp_mono (fun h' r hr => ?_) _ _ internalWrapper_wrote
    simp only [Program.spent_append]
    omega
  simp [offloadWrapper, started]
  refine ⟨⟨⟨?_, ⟨hinternal ?_, hinternal ?_, ?_⟩, ?_⟩, hinternal ?_, ?_⟩, ?_⟩
  all_goals simp [started, wroteCost, wroteFund]

theorem handlerFailed_wrote : (handlerFailed self d.message).wp (Program.free anyAnswer started)
    (fun h _ => Program.spent wroteCost started wroteFund h ≤ 1) [] := by
  have hcfg : self.config.poisonQueue (retryAttemptFromHeaders d.message.headers) =
      d.poisonQueue self := rfl
  rcases hq : d.poisonQueue self with _ | q
  all_goals
    simp [handlerFailed, publishPoison, IncomingMessage.ack, IncomingMessage.nack, hcfg, hq,
      Program.wp_ite, started, wroteCost]

theorem runHandler_wrote : (runHandler self d.message).wp (Program.free anyAnswer started)
    (fun h _ => Program.spent wroteCost started wroteFund h ≤ 1) [] := by
  -- the handler has failed before anything was spent
  have hfailed : ∀ {h : List Call}, Program.spent wroteCost started wroteFund h = 0 →
      (handlerFailed self d.message).wp (Program.free anyAnswer started)
        (fun h _ => Program.spent wroteCost started wroteFund h ≤ 1) h := by
    intro h hh
    rw [← List.append_nil h, Program.wp_free_append]
    refine Program.wp_mono (fun h' r hr => ?_) _ _ handlerFailed_wrote
    simp only [Program.spent_append]
    omega
  simp [runHandler, IncomingMessage.ack, Program.wp_ite, started, wroteCost]
  refine ⟨⟨fun _ => hfailed ?_, ⟨fun _ => hfailed ?_, hfailed ?_⟩, fun _ => hfailed ?_⟩,
    hfailed ?_⟩
  all_goals simp [started, wroteCost]

theorem code_wrote (l : Job) : (l.code self d).wp (Program.free anyAnswer started)
    (fun h _ => Program.spent wroteCost started wroteFund h ≤ 1) [] := by
  cases l with
  | direct => exact Listener.wp_direct (fun _ _ _ => id) internalWrapper_wrote
  | offloading => exact offloadWrapper_wrote
  | task => exact runHandler_wrote
  | work => exact offloaded_wrote
  | scheduled s => exact Program.wp_mono (fun _ _ ht => ht.1) _ _ (scheduled_wrote s)

end

/-- **At most one ack or nack of a delivery succeeds.** -/
theorem wrote_once {path : Path} {self : Settings} {d : Delivery} {s : Handling}
    (hs : (deliveryCrew path self d).Reach (answers anyAnswer) s) :
    (s.trace.map wroteCost).sum ≤ 1 :=
  crew_spends wroteFund exists_anyAnswer code_wrote hs

end MqAdapters
