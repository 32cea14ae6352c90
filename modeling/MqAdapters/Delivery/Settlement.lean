import MqAdapters.Delivery.AckSafety

/-!
# What each path asks of the broker

When nothing stops a delivery and its acks and nacks work, what a path asks of
the broker depends only on how the callback and the dead-letter publish end:
`settlement` is that list, and `actions_of_complete` says that every complete
run asks for exactly it, in any interleaving.

* `paths_agree_iff`: when the three paths ask for the same.
* `settled_once_iff`: when a finished delivery is settled exactly once.
-/

namespace MqAdapters

open Python Theory Code

/-- What the calls ask of the broker, in order. -/
def actions (h : List Call) : List BrokerAction := h.filterMap fun e => asks e.op

@[simp] theorem actions_nil : actions [] = [] := rfl

@[simp] theorem actions_cons (e : Call) (h : List Call) :
    actions (e :: h) = (asks e.op).toList ++ actions h := by
  rw [actions, List.filterMap_cons]
  cases asks e.op <;> rfl

@[simp] theorem actions_append (h h' : List Call) : actions (h ++ h') = actions h ++ actions h' :=
  List.filterMap_append

/-- What a nack according to `on_error` asks for. -/
def rejection (d : Delivery) (cfg : DeadLetteringConfig) : BrokerAction :=
  .nack d.channel d.deliveryTag (cfg.onError ≠ .deadLetter)

/-- What `_handle_fail` asks for. -/
def failSettlement (d : Delivery) (cfg : DeadLetteringConfig) (attempt : Int)
    (published : Except Raised Unit) : List BrokerAction :=
  match cfg.poisonQueue attempt with
  | none => [rejection d cfg]
  | some q => .publish "" q d.body :: match published with
    | .ok _ => [.ack d.channel d.deliveryTag]
    | .error _ => []

/-- What the `except` branch of `_run_handler` asks for. -/
def taskSettlement (d : Delivery) (cfg : DeadLetteringConfig) (attempt : Int)
    (published : Except Raised Unit) : List BrokerAction :=
  match cfg.poisonQueue attempt with
  | none => [rejection d cfg]
  | some q => .publish "" q d.body :: match published with
    | .ok _ => [.ack d.channel d.deliveryTag]
    | .error .exception => [rejection d cfg]
    | .error .baseException => []

/-- What a path asks for when the callback ends with `outcome` and a publish
with `published`. -/
def settlement (path : Path) (self : Settings) (d : Delivery)
    (outcome published : Except Raised Unit) : List BrokerAction :=
  let attempt := retryAttemptFromHeaders (headersOf d.properties)
  match path, outcome with
  | _, .ok _ => [.ack d.channel d.deliveryTag]
  | .internal, .error .exception => [.nack d.channel d.deliveryTag true]
  | .internal, .error .baseException => []
  | .offload, .error _ => failSettlement d self.config attempt published
  | .async, .error .exception => taskSettlement d self.config attempt published
  | .async, .error .baseException => []

/-- No stop is requested, the executor takes every task, the channel is open and
acks and nacks work; callbacks end with `outcome` and publishes with
`published`.  A connection that takes no function says so by an `Exception`. -/
def Smooth (path : Path) (outcome published : Except Raised Unit) (e : Call) : Prop :=
  (∀ r, finish path e = some r → r = outcome) ∧
  match e with
  | ⟨.stopMe, r⟩ => r = false
  | ⟨.acquire, r⟩ => r = .ok ()
  | ⟨.submit, r⟩ => r = .ok ()
  | ⟨.basicAck _ _, r⟩ => r = .ok ()
  | ⟨.basicNack _ _ _, r⟩ => r = .ok ()
  | ⟨.channelIsSet, r⟩ => r = true
  | ⟨.addCallbackThreadsafe _, r⟩ => r ≠ .error .baseException
  | ⟨.basicPublish _ _ _ _ _, r⟩ => r = published
  | ⟨.defaultExchangePublish _ _ _, r⟩ => r = published
  | _ => True

/-- The callback has ended. -/
def Finished (path : Path) (h : List Call) : Prop := ∃ e ∈ h, (finish path e).isSome

/-- The function was handed to the I/O thread. -/
def Delegated (h : List Call) : Prop :=
  ∃ schedule, (⟨.addCallbackThreadsafe schedule, .ok ()⟩ : Call) ∈ h

def smoothRules (path : Path) (self : Settings) (d : Delivery)
    (outcome published : Except Raised Unit) : Program.Rules Op Op.Ans Job where
  allowed := Smooth path outcome published
  guard _ _ := True
  spawn := started
  pre l h := actions h = [] ∧ match l with
    | .direct => path = .internal
    | .offloading => path = .offload
    | .task => path = .async ∧ ¬ Finished path h
    | .work => path = .offload
    | .scheduled s => path = .offload ∧
        s = .of self d.properties d.deliveryTag (match outcome with
          | .ok _ => none
          | .error x => some x)

def smoothPost (path : Path) (self : Settings) (d : Delivery)
    (outcome published : Except Raised Unit) (l : Job) (h : List Call) (_ : Except Raised Unit) :
    Prop :=
  match l with
  | .direct | .task => Finished path h → actions h = settlement path self d outcome published
  | .offloading => (⟨.submit, .ok ()⟩ : Call) ∈ h
  | .work => Delegated h ∨ actions h = settlement path self d outcome published
  | .scheduled _ => actions h = settlement path self d outcome published

section

variable {path : Path} {self : Settings} {d : Delivery} {outcome published : Except Raised Unit}
  {h : List Call}

@[simp] theorem finished_nil : ¬ Finished path [] := by simp [Finished]

@[simp] theorem finished_cons {e : Call} :
    Finished path (e :: h) ↔ (finish path e).isSome = true ∨ Finished path h := by
  simp [Finished]

@[simp] theorem finished_append {h' : List Call} :
    Finished path (h ++ h') ↔ Finished path h ∨ Finished path h' := by
  simp [Finished, or_and_right, exists_or]

@[simp] theorem smoothRules_guard (o : Op) :
    (smoothRules path self d outcome published).guard h o ↔ True := Iff.rfl

@[simp] theorem smoothRules_allowed (e : Call) :
    (smoothRules path self d outcome published).allowed e ↔ Smooth path outcome published e :=
  Iff.rfl

@[simp] theorem smoothRules_spawn :
    (smoothRules path self d outcome published).spawn = started := rfl

theorem internalWrapper_smooth (hauto : self.autoAck = false) (ha : actions h = []) :
    (internalWrapper self d.channel d.method d.properties d.body).wp
      (smoothRules .internal self d outcome published)
      (smoothPost .internal self d outcome published .direct) h := by
  rcases outcome with (_ | _) | ⟨⟩
  all_goals
    simp [internalWrapper, Delivery.method, started, Smooth, smoothPost, finish, settlement, asks,
      hauto, ha]

theorem scheduled_smooth {s : Schedule}
    (hs : (smoothRules .offload self d outcome published).pre (.scheduled s) h) :
    (s.run d.channel d.properties d.body).wp (smoothRules .offload self d outcome published)
      (fun h' r => actions h' = settlement .offload self d outcome published ∧
        r ≠ .error .exception) h := by
  obtain ⟨ha, -, rfl⟩ := hs
  rcases outcome with x | ⟨⟩
  · rcases hq : self.config.poisonQueue (retryAttemptFromHeaders (headersOf d.properties))
      with _ | q
    · simp [Schedule.of, Schedule.run, handleFail, Program.wp_ite, started, Smooth, finish,
        settlement, failSettlement, rejection, asks, hq, ha]
    · rcases published with (_ | _) | ⟨⟩
      all_goals
        simp [Schedule.of, Schedule.run, handleFail, started, Smooth, finish, settlement,
          failSettlement, asks, hq, ha]
  · simp [Schedule.of, Schedule.run, ackOffloaded, started, Smooth, finish, settlement, asks, ha]

/-- The exception that `_on_done` finds. -/
def excOf : Except Raised Unit → Option Raised
  | .ok _ => none
  | .error x => some x

theorem onDone_smooth (hauto : self.autoAck = false) (ha : actions h = []) :
    (onDone self d.channel d.method d.properties d.body (excOf outcome)).wp
      (smoothRules .offload self d outcome published)
      (smoothPost .offload self d outcome published .work) h := by
  set s := Schedule.of self d.properties d.deliveryTag (excOf outcome) with hs
  have hpre : ∀ {h'}, actions h' = [] →
      (smoothRules .offload self d outcome published).pre (.scheduled s) h' :=
    fun h' => ⟨h', rfl, rfl⟩
  have hrun : ∀ {h' Q}, actions h' = [] → (∀ h'' r,
      actions h'' = settlement .offload self d outcome published → r ≠ .error .exception →
        Q h'' r) →
      (s.run d.channel d.properties d.body).wp (smoothRules .offload self d outcome published)
        Q h' :=
    fun ha hQ => Program.wp_mono (fun h'' r hr => hQ h'' r hr.1 hr.2) _ _
      (scheduled_smooth (hpre ha))
  rcases hexc : excOf outcome with _ | x <;> rw [hexc] at hs
  all_goals
    simp [onDone, Delivery.method, Program.wp_ite, started, Smooth, finish, smoothPost, hauto,
      ← hs, Delegated]
    refine ⟨hrun (by simp [asks, ha]) ?_, hpre (by simp [asks, ha]), hrun (by simp [asks, ha]) ?_⟩
  all_goals
    rintro h'' ((_ | _) | r) hact hr
    · exact absurd rfl hr
    all_goals exact Or.inr (by simpa [asks] using hact)

theorem offloaded_smooth (hauto : self.autoAck = false) (ha : actions h = []) :
    (offloaded self d.channel d.method d.properties d.body).wp
      (smoothRules .offload self d outcome published)
      (smoothPost .offload self d outcome published .work) h := by
  have hdone : ∀ {r : Except Raised Returned} {exc : Option Raised}, exc = excOf outcome →
      (onDone self d.channel d.method d.properties d.body exc).wp
      (smoothRules .offload self d outcome published)
      (smoothPost .offload self d outcome published .work)
      (h ++ [⟨.callback d.properties d.body, r⟩]) :=
    fun hr => hr ▸ onDone_smooth hauto (by simp [asks, ha])
  simp [offloaded, started, Smooth, finish]
  refine ⟨⟨?_, ?_, ?_⟩, ?_, ?_⟩ <;> exact fun ho => hdone (by rw [← ho]; rfl)

theorem offloadWrapper_smooth (ha : actions h = []) :
    (offloadWrapper ⟨self, true⟩ d.channel d.method d.properties d.body).wp
      (smoothRules .offload self d outcome published)
      (smoothPost .offload self d outcome published .offloading) h := by
  have hpre : ∀ {h'}, actions h' = [] →
      (smoothRules .offload self d outcome published).pre .work h' := fun h' => ⟨h', rfl⟩
  simp [offloadWrapper, started, Smooth, finish, smoothPost]
  exact hpre (by simp [asks, ha])

theorem handlerFailed_smooth (hauto : self.autoAck = false) (ha : actions h = []) :
    (handlerFailed self d.message).wp (smoothRules .async self d outcome published)
      (fun h' _ => actions h' = taskSettlement d self.config
        (retryAttemptFromHeaders (headersOf d.properties)) published) h := by
  rcases hq : self.config.poisonQueue (retryAttemptFromHeaders (headersOf d.properties)) with _ | q
  · simp [handlerFailed, IncomingMessage.nack, Delivery.message, Program.wp_ite, started, Smooth,
      finish, taskSettlement, rejection, asks, hauto, ha, hq]
  · rcases published with (_ | _) | ⟨⟩
    all_goals
      simp [handlerFailed, publishPoison, IncomingMessage.ack, IncomingMessage.nack,
        Delivery.message, Program.wp_ite, started, Smooth, finish, taskSettlement, rejection,
        asks, hauto, ha, hq]

theorem runHandler_smooth (hauto : self.autoAck = false) (ha : actions h = [])
    (hf : ¬ Finished .async h) :
    (runHandler self d.message).wp (smoothRules .async self d outcome published)
      (smoothPost .async self d outcome published .task) h := by
  have hfailed : ∀ {h' : List Call}, actions h' = [] →
      (handlerFailed self d.message).wp (smoothRules .async self d outcome published)
        (fun h' _ => Finished .async h' → actions h' = taskSettlement d self.config
          (retryAttemptFromHeaders (headersOf d.properties)) published) h' :=
    fun ha => Program.wp_mono (fun h' _ hr (_ : Finished .async h') => hr) _ _
      (handlerFailed_smooth hauto ha)
  rcases outcome with (_ | _) | ⟨⟩
  all_goals
    simp [runHandler, IncomingMessage.ack, started, Smooth, smoothPost, finish, settlement,
      Delivery.message, asks, hauto, ha, hf]
  -- the coroutine raised, or the call did
  exact ⟨hfailed (by simp [asks, ha]), hfailed (by simp [asks, ha])⟩

theorem code_smooth (hauto : self.autoAck = false) (l : Job) (h : List Call)
    (hl : (smoothRules path self d outcome published).pre l h) :
    (l.code self d).wp (smoothRules path self d outcome published)
      (smoothPost path self d outcome published l) h := by
  obtain ⟨ha, hl⟩ := hl
  cases l with
  | direct =>
    obtain rfl := hl
    exact Listener.wp_direct (fun _ _ _ => id) (internalWrapper_smooth hauto ha)
  | offloading => obtain rfl := hl; exact offloadWrapper_smooth ha
  | task => obtain ⟨rfl, hf⟩ := hl; exact runHandler_smooth hauto ha hf
  | work => obtain rfl := hl; exact offloaded_smooth hauto ha
  | scheduled s =>
    obtain ⟨rfl, hs⟩ := hl
    exact Program.wp_mono (fun _ _ hr => hr.1) _ _ (scheduled_smooth ⟨ha, rfl, hs⟩)

/-! ## The length of a settlement -/

/-- What a program can ask of the broker in a smooth run. -/
def smoothFund (path : Path) (self : Settings) (d : Delivery)
    (outcome published : Except Raised Unit) : Job → Nat
  | .direct | .task => 3
  | .offloading | .work => (settlement path self d outcome published).length
  | .scheduled (.ack _) => 1
  | .scheduled (.fail _ cfg attempt) => (failSettlement d cfg attempt published).length

def askCost (e : Call) : Nat := (asks e.op).toList.length

theorem exists_smooth (o : Op) : ∃ r, Smooth path outcome published ⟨o, r⟩ := by
  cases o with
  | callback properties body =>
    refine ⟨match outcome with
      | .ok _ => .ok .value
      | .error x => .error x, ?_⟩
    rcases outcome with x | ⟨⟩ <;> simp [Smooth, finish]
  | awaitResult => exact ⟨outcome, by simp [Smooth, finish]⟩
  | stopMe => exact ⟨false, by simp [Smooth, finish]⟩
  | basicPublish => exact ⟨published, by simp [Smooth, finish]⟩
  | defaultExchangePublish => exact ⟨published, by simp [Smooth, finish]⟩
  | inc c => exact ⟨(), by simp [Smooth, finish]⟩
  | addDoneCallback | connectionIsOpen | semaphoreIsSet | channelIsSet =>
    exact ⟨true, by simp [Smooth, finish]⟩
  | _ => exact ⟨Except.ok (), by simp [Smooth, finish]⟩

theorem scheduled_askCost (s : Schedule) :
    (s.run d.channel d.properties d.body).wp (Program.free (Smooth path outcome published) started)
      (fun h r => Program.spent askCost started (smoothFund .offload self d outcome published) h ≤
        smoothFund .offload self d outcome published (.scheduled s) ∧
          r ≠ .error .exception) [] := by
  cases s with
  | ack tag => simp [Schedule.run, ackOffloaded, started, Smooth, finish, askCost, asks, smoothFund]
  | fail tag cfg attempt =>
    rcases hq : cfg.poisonQueue attempt with _ | q
    · simp [Schedule.run, handleFail, Program.wp_ite, started, Smooth, finish, askCost, asks,
        smoothFund, failSettlement, hq]
    · rcases published with (_ | _) | ⟨⟩
      all_goals
        simp [Schedule.run, handleFail, started, Smooth, finish, askCost, asks, smoothFund,
          failSettlement, hq]

theorem handlerFailed_askCost (fund : Job → Nat) {allowed : Call → Prop}
    (hack : ∀ ch tag x, ¬ allowed ⟨.basicAck ch tag, .error x⟩) :
    (handlerFailed self d.message).wp (Program.free allowed started)
      (fun h _ => Program.spent askCost started fund h ≤ 2) [] := by
  rcases hq : self.config.poisonQueue (retryAttemptFromHeaders d.message.headers) with _ | q
  all_goals
    simp [handlerFailed, publishPoison, IncomingMessage.ack, IncomingMessage.nack,
      Program.wp_ite, started, askCost, asks, hq, hack]

theorem runHandler_askCost (fund : Job → Nat) {allowed : Call → Prop}
    (hack : ∀ ch tag x, ¬ allowed ⟨.basicAck ch tag, .error x⟩) :
    (runHandler self d.message).wp (Program.free allowed started)
      (fun h _ => Program.spent askCost started fund h ≤ 3) [] := by
  have hfailed : ∀ {h : List Call} {Q}, Program.spent askCost started fund h ≤ 1 →
      (∀ h' r, Program.spent askCost started fund h' ≤ 3 → Q h' r) →
      (handlerFailed self d.message).wp (Program.free allowed started) Q h := by
    intro h Q hh hQ
    rw [← List.append_nil h, Program.wp_free_append]
    refine Program.wp_mono (fun h' r hr => hQ _ _ ?_) _ _ (handlerFailed_askCost fund hack)
    rw [Program.spent_append]
    omega
  simp [runHandler, IncomingMessage.ack, Program.wp_ite, started, askCost, asks, hack]
  intro _ _
  constructor
  all_goals
    intros
    refine hfailed (by simp [started, askCost, asks]) fun h' r hle => ?_
    exact ⟨fun _ => hle, fun _ => hle, fun _ => hle⟩
theorem offloaded_askCost :
    (offloaded self d.channel d.method d.properties d.body).wp
      (Program.free (Smooth .offload outcome published) started)
      (fun h _ => Program.spent askCost started (smoothFund .offload self d outcome published) h ≤
        smoothFund .offload self d outcome published .work) [] := by
  refine offloaded_spent (fun e he => ?_) scheduled_askCost (fun r hr => ?_) fun x hx => ?_
  · obtain ⟨o, r⟩ := e
    cases o with
    | inc | connectionIsOpen | addCallbackThreadsafe | release => rfl
    | _ => exact he.elim
  · obtain rfl : .ok () = outcome := hr.1 _ rfl
    exact Nat.le_refl 1
  · obtain rfl : .error x = outcome := hx.1 _ rfl
    simp [askCost, asks, smoothFund, Schedule.of, settlement]

theorem code_askCost (l : Job) :
    (l.code self d).wp (Program.free (Smooth .offload outcome published) started)
      (fun h _ => Program.spent askCost started (smoothFund .offload self d outcome published) h ≤
        smoothFund .offload self d outcome published l) [] := by
  cases l with
  | direct =>
    refine Listener.wp_direct (fun _ _ _ => id) ?_
    rcases self with ⟨dest, _ | _⟩
    all_goals
      simp [internalWrapper, Delivery.method, started, Smooth, finish, askCost, asks, smoothFund]
  | offloading =>
    simp [Job.code, offloadWrapper, started, Smooth, finish, askCost, asks, smoothFund]
  | task => exact runHandler_askCost _ fun _ _ _ h => by cases h.2
  | work => exact offloaded_askCost
  | scheduled s => exact Program.wp_mono (fun _ _ hr => hr.1) _ _ (scheduled_askCost s)

theorem askCost_sum (h : List Call) : (h.map askCost).sum = (actions h).length := by
  induction h with
  | nil => rfl
  | cons e h ih => rw [List.map_cons, List.sum_cons, ih, actions_cons, List.length_append]; rfl

end

/-! ## Complete runs -/

section

variable {path : Path} {self : Settings} {d : Delivery} {outcome published : Except Raised Unit}
  {s : Handling}

theorem anyAnswer_reach {allowed : Call → Prop}
    (hs : (deliveryCrew path self d).Reach (answers allowed) s) :
    (deliveryCrew path self d).Reach (answers anyAnswer) s :=
  hs.mono fun _ _ _ _ _ => trivial

theorem delivery_smooth (hauto : self.autoAck = false)
    (hs : (deliveryCrew path self d).Reach (answers (Smooth path outcome published)) s) :
    Kept (smoothRules path self d outcome published)
      (smoothPost path self d outcome published) path.job s := by
  refine crew_kept (code_smooth hauto) ?_ hs
  cases path <;> simp [Path.job, smoothRules]

/-- The offload path settles as laid down: the program that asks the broker is
among those that were started, and no other has anything left to ask for. -/
theorem actions_of_offload (hauto : self.autoAck = false)
    (hs : (deliveryCrew .offload self d).Reach (answers (Smooth .offload outcome published)) s)
    (hc : s.Complete) : actions s.trace = settlement .offload self d outcome published := by
  have hk := delivery_smooth hauto hs
  -- some program has asked for the whole settlement
  obtain ⟨p, hp, hact⟩ : ∃ p, p.Sublist s.trace ∧
      actions p = settlement .offload self d outcome published := by
    obtain ⟨⟨l, past, rest⟩, ht, rfl⟩ := hk.root
    obtain ⟨p, _, hp, hsub⟩ := hk.ended hc ht
    obtain ⟨⟨l, past, rest⟩, ht, rfl⟩ := hk.started _ (hp.subset hsub) .work
      (List.mem_singleton_self _)
    obtain ⟨p, _, hp, ⟨schedule, hdel⟩ | hact⟩ := hk.ended hc ht
    · obtain ⟨⟨l, past, rest⟩, ht, rfl⟩ := hk.started _ (hp.subset hdel) (.scheduled schedule)
        (List.mem_singleton_self _)
      obtain ⟨p, _, hp, hact⟩ := hk.ended hc ht
      exact ⟨p, hp, hact⟩
    · exact ⟨p, hp, hact⟩
  -- and nothing more can be asked for
  have hcost := crew_spends (smoothFund .offload self d outcome published) exists_smooth
    code_askCost hs
  rw [askCost_sum] at hcost
  have hsub : (actions p).Sublist (actions s.trace) := hp.filterMap _
  rw [hact] at hsub
  exact (hsub.eq_of_length_le hcost).symm

/-- **What a complete smooth run asks of the broker** depends only on how the
callback and the publish end. -/
theorem actions_of_complete (hauto : self.autoAck = false)
    (hs : (deliveryCrew path self d).Reach (answers (Smooth path outcome published)) s)
    (hc : s.Complete) (hf : Finished path s.trace) :
    actions s.trace = settlement path self d outcome published := by
  have hsolo : path ≠ .offload → ∃ r, smoothPost path self d outcome published path.job s.trace r :=
    fun hp => (delivery_smooth hauto hs).solo hs
      (nothing_started (anyAnswer_reach hs) (Or.inl hp)) hc
  cases path with
  | internal =>
    obtain ⟨_, hpost⟩ := hsolo (by simp)
    exact hpost hf
  | offload => exact actions_of_offload hauto hs hc
  | async =>
    obtain ⟨_, hpost⟩ := hsolo (by simp)
    exact hpost hf

end

/-! ## The three paths side by side -/

/-- A run of one delivery to its end, with a callback that ends with `outcome`. -/
structure Handled (path : Path) (settings : Settings) (d : Delivery)
    (outcome : Except Raised Unit) (s : Handling) : Prop where
  reach : (deliveryCrew path settings d).Reach (answers (Smooth path outcome (.ok ()))) s
  complete : s.Complete
  finished : Finished path s.trace

/-- **The three paths ask for the same** exactly when the callback returns, or
raises an `Exception` on a delivery that is to be requeued and is not poison. -/
theorem paths_agree_iff {self : Settings} (hauto : self.autoAck = false) {d : Delivery}
    {outcome : Except Raised Unit} {s₁ s₂ s₃ : Handling}
    (h₁ : Handled .internal self d outcome s₁) (h₂ : Handled .offload self d outcome s₂)
    (h₃ : Handled .async self d outcome s₃) :
    (actions s₁.trace = actions s₂.trace ∧ actions s₂.trace = actions s₃.trace) ↔
      outcome = .ok () ∨ (outcome = .error .exception ∧ self.config.onError = .requeue ∧
        d.poisonQueue self = none) := by
  rw [actions_of_complete hauto h₁.reach h₁.complete h₁.finished,
    actions_of_complete hauto h₂.reach h₂.complete h₂.finished,
    actions_of_complete hauto h₃.reach h₃.complete h₃.finished]
  have hd : d.poisonQueue self =
    self.config.poisonQueue (retryAttemptFromHeaders (headersOf d.properties)) := rfl
  rw [hd]
  rcases outcome with (_ | _) | ⟨⟩
  · rcases hq : self.config.poisonQueue (retryAttemptFromHeaders (headersOf d.properties))
      with _ | q
    · cases ho : self.config.onError <;>
        simp [settlement, failSettlement, taskSettlement, rejection, hq, ho]
    · simp [settlement, failSettlement, taskSettlement, hq]
  · rcases hq : self.config.poisonQueue (retryAttemptFromHeaders (headersOf d.properties))
      with _ | q
    all_goals simp [settlement, failSettlement, hq]
  · simp [settlement]

/-- Each path on the first delivery, with the callback and the publish ending
as given. -/
def sampleRun (path : Path) (callback : Except Raised Returned) (publish : Except Raised Unit) :
    Handling :=
  handled path poisonSettings firstDelivery (answering callback (.ok ()) publish)
    (match path with
    | .internal | .async => [0, 0, 0, 0, 0, 0, 0, 0]
    | .offload => [0, 0, 0, 0, 0, 1, 1, 1, 1, 1, 2, 2, 2])

theorem sampleRun_complete (path : Path) (publish : Except Raised Unit) :
    (sampleRun path (.error .exception) publish).Complete :=
  Crew.complete_of_all (by cases path <;> rcases publish with (_ | _) | ⟨⟨⟩⟩ <;> decide +kernel)

theorem sampleRun_finished (path : Path) (publish : Except Raised Unit) :
    Finished path (sampleRun path (.error .exception) publish).trace :=
  List.any_eq_true.mp (by cases path <;> rcases publish with (_ | _) | ⟨⟨⟩⟩ <;> decide +kernel)

theorem sampleRun_handled (path : Path) :
    Handled path poisonSettings firstDelivery (.error .exception)
      (sampleRun path (.error .exception) (.ok ())) := by
  refine ⟨handled_reach (fun o => ?_) _, sampleRun_complete path _, sampleRun_finished path _⟩
  cases o <;> simp [Smooth, finish, answering, Except.map]

theorem paths_agree_iff_sample :
    (actions (sampleRun .internal (.error .exception) (.ok ())).trace =
        actions (sampleRun .offload (.error .exception) (.ok ())).trace ∧
      actions (sampleRun .offload (.error .exception) (.ok ())).trace =
        actions (sampleRun .async (.error .exception) (.ok ())).trace) ↔
      (Except.error .exception : Except Raised Unit) = .ok () ∨
        ((Except.error .exception : Except Raised Unit) = .error .exception ∧
          poisonSettings.config.onError = .requeue ∧
          firstDelivery.poisonQueue poisonSettings = none) :=
  paths_agree_iff rfl (sampleRun_handled .internal) (sampleRun_handled .offload)
    (sampleRun_handled .async)

/-- The wrapper without executor requeues what the other two give up. -/
theorem paths_disagree : ∃ s₁ s₂ s₃,
    Handled .internal poisonSettings firstDelivery (.error .exception) s₁ ∧
    Handled .offload poisonSettings firstDelivery (.error .exception) s₂ ∧
    Handled .async poisonSettings firstDelivery (.error .exception) s₃ ∧
    actions s₁.trace = [.nack 0 1 true] ∧
    actions s₂.trace = [.publish "" "dlq" firstDelivery.body, .ack 0 1] ∧
    actions s₃.trace = [.publish "" "dlq" firstDelivery.body, .ack 0 1] :=
  ⟨_, _, _, sampleRun_handled .internal, sampleRun_handled .offload, sampleRun_handled .async,
    rfl, rfl, rfl⟩

/-! ## Finished deliveries -/

/-- No stop is requested, the executor takes every task, the channel is open and
acks and nacks work. -/
def Serviceable : Call → Prop
  | ⟨.stopMe, r⟩ => r = false
  | ⟨.acquire, r⟩ => r = .ok ()
  | ⟨.submit, r⟩ => r = .ok ()
  | ⟨.basicAck _ _, r⟩ => r = .ok ()
  | ⟨.basicNack _ _ _, r⟩ => r = .ok ()
  | ⟨.channelIsSet, r⟩ => r = true
  | ⟨.addCallbackThreadsafe _, r⟩ => r ≠ .error .baseException
  | _ => True

def BrokerAction.settles : BrokerAction → Bool
  | .publish _ _ _ => false
  | .ack _ _ => true
  | .nack _ _ _ => true

/-- How a publish ended. -/
def published : Call → Option (Except Raised Unit)
  | ⟨.basicPublish _ _ _ _ _, r⟩ => some r
  | ⟨.defaultExchangePublish _ _ _, r⟩ => some r
  | _ => none

/-- A publish ended as `r`. -/
def Published (h : List Call) (r : Except Raised Unit) : Prop := ∃ e ∈ h, published e = some r

/-- The delivery was settled once, and according to `on_error` if its publish
raised. -/
def SettledOnce (self : Settings) (d : Delivery) (h : List Call) : Prop :=
  ∃ a, (actions h).filter BrokerAction.settles = [a] ∧
    ((∃ x, Published h (.error x)) → a = rejection d self.config)

/-- What leaves a finished delivery unsettled: on the offload path any exception
of the publish, on the async path an exception of the publish or of the callback
that `except Exception` lets through. -/
def LeftOpen (path : Path) (h : List Call) : Prop :=
  match path with
  | .internal => False
  | .offload => ∃ x, Published h (.error x)
  | .async => Published h (.error .baseException) ∨
      ∃ e ∈ h, finish path e = some (.error .baseException)

section

variable {path : Path} {self : Settings} {d : Delivery} {s : Handling}

theorem published_unique (hs : (deliveryCrew path self d).Reach (answers anyAnswer) s)
    {r r' : Except Raised Unit} (hr : Published s.trace r) (hr' : Published s.trace r') :
    r = r' := by
  obtain ⟨e, he, hp⟩ := hr
  obtain ⟨e', he', hp'⟩ := hr'
  have hcost : ∀ {e : Call} {r}, published e = some r → publishCost e = 1 := by
    rintro ⟨o, x⟩ r h
    cases o with
    | basicPublish | defaultExchangePublish => rfl
    | _ => cases h
  obtain rfl := eq_of_sum_map_le_one (publishes_once hs) he he' (hcost hp) (hcost hp')
  exact Option.some.inj (hp.symm.trans hp')

/-- A serviceable run is smooth for the outcomes that occur in it. -/
theorem smooth_of_serviceable
    (hs : (deliveryCrew path self d).Reach (answers Serviceable) s)
    {outcome pub : Except Raised Unit}
    (hout : ∃ e ∈ s.trace, finish path e = some outcome)
    (hpub : ∀ r, Published s.trace r → r = pub) :
    (deliveryCrew path self d).Reach (answers (Smooth path outcome pub)) s := by
  have hany := anyAnswer_reach hs
  obtain ⟨e₀, he₀, hf₀⟩ := hout
  refine crew_restrict hs fun e he => ⟨fun r hr => finish_unique hany he he₀ hr hf₀, ?_⟩
  have := trace_allowed hs e he
  have hp := fun r hr => hpub r ⟨e, he, hr⟩
  obtain ⟨o, x⟩ := e
  cases o <;> simp_all [Serviceable, published]

/-- A finished serviceable run is smooth, for the outcome of its callback. -/
theorem exists_smooth_run (hs : (deliveryCrew path self d).Reach (answers Serviceable) s)
    (hf : Finished path s.trace) : ∃ outcome pub,
      (deliveryCrew path self d).Reach (answers (Smooth path outcome pub)) s ∧
      ∀ r, (∃ e ∈ s.trace, finish path e = some r) ↔ outcome = r := by
  have hany := anyAnswer_reach hs
  obtain ⟨e, he, hfe⟩ := hf
  obtain ⟨outcome, hout⟩ := Option.isSome_iff_exists.mp hfe
  obtain ⟨pub, hpub⟩ : ∃ pub, ∀ r, Published s.trace r → r = pub := by
    by_cases h : ∃ r, Published s.trace r
    · obtain ⟨pub, h⟩ := h
      exact ⟨pub, fun r hr => published_unique hany hr h⟩
    · exact ⟨.ok (), fun r hr => absurd ⟨r, hr⟩ h⟩
  refine ⟨outcome, pub, smooth_of_serviceable hs ⟨e, he, hout⟩ hpub, fun r => ⟨?_, ?_⟩⟩
  · rintro ⟨e', he', hf'⟩
    exact finish_unique hany he he' hout hf'
  · rintro rfl
    exact ⟨e, he, hout⟩

/-- In a smooth run, how a publish ended is told by whether one was asked for. -/
theorem published_iff {outcome pub : Except Raised Unit}
    (hs : (deliveryCrew path self d).Reach (answers (Smooth path outcome pub)) s)
    (r : Except Raised Unit) :
    Published s.trace r ↔ (∃ a ∈ actions s.trace, a.settles = false) ∧ r = pub := by
  have hall := trace_allowed hs
  constructor
  · rintro ⟨e, he, hp⟩
    have hask : ∃ a, asks e.op = some a ∧ a.settles = false := by
      obtain ⟨o, x⟩ := e
      cases o <;> simp_all [published, asks, BrokerAction.settles]
    obtain ⟨a, ha, hset⟩ := hask
    refine ⟨⟨a, List.mem_filterMap.mpr ⟨e, he, ha⟩, hset⟩, ?_⟩
    have hsm := (hall e he).2
    obtain ⟨o, x⟩ := e
    cases o <;> simp_all [published]
  · rintro ⟨⟨a, ha, hset⟩, rfl⟩
    obtain ⟨e, he, hask⟩ := List.mem_filterMap.mp ha
    refine ⟨e, he, ?_⟩
    have hsm := (hall e he).2
    obtain ⟨o, x⟩ := e
    cases o with
    | basicPublish | defaultExchangePublish => simpa [published] using hsm
    | basicAck | basicNack =>
      obtain rfl := Option.some.inj hask
      exact absurd hset (by simp [BrokerAction.settles])
    | _ => exact absurd hask (by simp [asks])

/-- **A finished delivery is settled once**, according to `on_error` when its
publish raised, exactly when nothing of `LeftOpen` happened to it. -/
theorem settled_once_iff {sys : List (Delivery × Handling)} (hp : path ≠ .internal)
    (hauto : self.autoAck = false)
    (hs : (deliveries path self).Reach (deliveryAnswers Serviceable) sys)
    (hd : (d, s) ∈ sys) (hc : s.Complete) (hf : Finished path s.trace) :
    SettledOnce self d s.trace ↔ ¬ LeftOpen path s.trace := by
  have hr := delivery_reach hs hd
  obtain ⟨outcome, pub, hsm, hout⟩ := exists_smooth_run hr hf
  have hact := actions_of_complete hauto hsm hc hf
  have hpubl := published_iff hsm
  rw [hact] at hpubl
  rcases hq : self.config.poisonQueue (retryAttemptFromHeaders (headersOf d.properties)) with _ | q
  all_goals
    cases path with
    | internal => exact absurd rfl hp
    | offload =>
      rcases outcome with x | u <;> rcases pub with (_ | _) | ⟨⟨⟩⟩
      all_goals
        simp [SettledOnce, LeftOpen, hpubl, hact, settlement, failSettlement, rejection, hq,
          List.filter, BrokerAction.settles]
    | async =>
      rcases outcome with (_ | _) | u <;> rcases pub with (_ | _) | ⟨⟨⟩⟩
      all_goals
        simp [SettledOnce, LeftOpen, hpubl, hact, hout, settlement, taskSettlement, rejection, hq,
          List.filter, BrokerAction.settles]

theorem settled_once_iff_async :
    SettledOnce poisonSettings firstDelivery
        (sampleRun .async (.error .exception) (.error .exception)).trace ↔
      ¬ LeftOpen .async (sampleRun .async (.error .exception) (.error .exception)).trace :=
  settled_once_iff (by simp) rfl
    (reach_delivery (handled_reach (fun o => by cases o <;> simp [Serviceable, answering]) _))
    (List.mem_singleton_self _) (sampleRun_complete .async _) (sampleRun_finished .async _)

/-- After a publish that raised, the offload path asks for nothing more. -/
theorem left_unsettled : ∃ s,
    (deliveryCrew .offload poisonSettings firstDelivery).Reach (answers Serviceable) s ∧
    s.Complete ∧ Finished .offload s.trace ∧
    actions s.trace = [.publish "" "dlq" firstDelivery.body] ∧
    Published s.trace (.error .exception) :=
  ⟨sampleRun .offload (.error .exception) (.error .exception),
    handled_reach (fun o => by cases o <;> simp [Serviceable, answering]) _,
    sampleRun_complete .offload _, sampleRun_finished .offload _, by decide +kernel,
    ⟨_, List.mem_of_getElem? (i := 10) rfl, rfl⟩⟩

end

end MqAdapters
