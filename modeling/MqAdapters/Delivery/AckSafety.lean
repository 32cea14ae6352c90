import Mathlib.Algebra.Order.BigOperators.Group.List
import Mathlib.Algebra.Order.Group.Nat
import MqAdapters.Delivery.Lawful

/-!
# Ack safety of the delivery paths

* `ack_safe`: an ack is issued only for work that is done, or given up to the
  dead-letter queue.
* `offload_settles_once`: a delivery that the executor took is settled at most
  once, on its own channel, with its own tag, after its callback finished.
* `completed_not_rejected_iff`: a delivery whose callback completed is neither
  nacked nor dead-lettered, unless an ack raised inside the `try` that also
  covers the callback.

The counting facts are budgets: `finishes_once`, `enters_once` and
`settles_once` give each program what it may spend on one kind of call.
-/

namespace MqAdapters

open Python Theory Code

theorem exists_anyAnswer (o : Op) : ∃ r, anyAnswer ⟨o, r⟩ := by
  cases o
  all_goals first
    | exact ⟨Except.error .exception, trivial⟩
    | exact ⟨true, trivial⟩
    | exact ⟨(), trivial⟩

/-- Two different members of a list both count in a sum over it. -/
theorem add_le_sum_map {X : Type} (f : X → Nat) {l : List X} {a b : X} (ha : a ∈ l) (hb : b ∈ l)
    (hab : a ≠ b) : f a + f b ≤ (l.map f).sum := by
  have hle : ∀ {x : X} {l : List X}, x ∈ l → f x ≤ (l.map f).sum :=
    fun hx => List.single_le_sum (by simp) _ (List.mem_map_of_mem hx)
  induction l with
  | nil => exact absurd ha List.not_mem_nil
  | cons c l ih =>
    rw [List.map_cons, List.sum_cons]
    rcases List.mem_cons.mp ha with rfl | ha'
    · have := hle ((List.mem_cons.mp hb).resolve_left hab.symm)
      omega
    · rcases List.mem_cons.mp hb with rfl | hb'
      · have := hle ha'
        omega
      · have := ih ha' hb'
        omega

/-- Where at most one is spent, only one member costs one. -/
theorem eq_of_sum_map_le_one {X : Type} {f : X → Nat} {l : List X} (hl : (l.map f).sum ≤ 1)
    {a b : X} (ha : a ∈ l) (hb : b ∈ l) (hfa : f a = 1) (hfb : f b = 1) : a = b := by
  by_contra hab
  have := add_le_sum_map f ha hb hab
  omega

/-! ## What `_on_done` spends -/

/-- The calls of `_on_done` itself, apart from what it schedules. -/
def Minor : Op → Prop
  | .inc _ | .connectionIsOpen | .addCallbackThreadsafe _ | .release => True
  | _ => False

section

variable {self : Settings} {d : Delivery} {allowed : Call → Prop} {cost : Call → Nat}
  {fund : Job → Nat}

/-- `_on_done` spends what the function does that it schedules: either the
function is started, or its body is run in place, which raises no `Exception`
and so is not run again. -/
theorem onDone_spent (hcost : ∀ e : Call, Minor e.op → cost e = 0)
    (hs : ∀ s : Schedule, (s.run d.channel d.properties d.body).wp (Program.free allowed started)
      (fun h r => Program.spent cost started fund h ≤ fund (.scheduled s) ∧
        r ≠ .error .exception) [])
    (exc : Option Raised) (h : List Call) :
    (onDone self d.channel d.method d.properties d.body exc).wp (Program.free allowed started)
      (fun h' _ => Program.spent cost started fund h' ≤ Program.spent cost started fund h +
        fund (.scheduled (.of self d.properties d.deliveryTag exc))) h := by
  set s := Schedule.of self d.properties d.deliveryTag exc with hsched
  have hrun : ∀ {h' : List Call} {Q}, (∀ h'' r,
      Program.spent cost started fund h'' ≤ fund (.scheduled s) → r ≠ .error .exception →
        Q (h' ++ h'') r) →
      (s.run d.channel d.properties d.body).wp (Program.free allowed started) Q h' := by
    intro h' Q hQ
    rw [← List.append_nil h', Program.wp_free_append]
    exact Program.wp_mono (fun h'' r hr => hQ h'' r hr.1 hr.2) _ _ (hs s)
  have hinc : ∀ (c : Counter) (r : Unit), cost ⟨.inc c, r⟩ = 0 := fun _ _ => hcost _ trivial
  have hopen : ∀ r : Bool, cost ⟨.connectionIsOpen, r⟩ = 0 := fun _ => hcost _ trivial
  have hadd : ∀ r : Except Raised Unit, cost ⟨.addCallbackThreadsafe s, r⟩ = 0 :=
    fun _ => hcost _ trivial
  have hrelease : ∀ r : Except Raised Unit, cost ⟨.release, r⟩ = 0 := fun _ => hcost _ trivial
  rcases exc with _ | x
  all_goals
    simp [onDone, Delivery.method, Program.wp_ite, ← hsched, hinc, hopen, hadd, hrelease, started]
    intros
    refine ⟨fun _ => hrun ?_, fun _ _ => hrun ?_⟩
  all_goals
    rintro h'' ((_ | _) | r) hle hr
    · exact absurd rfl hr
    all_goals simp [hinc, hopen, hadd, started, hle]

/-- A submitted callback spends what it does itself, and what `_on_done` does for the way
the callback ended. -/
theorem offloaded_spent (hcost : ∀ e : Call, Minor e.op → cost e = 0)
    (hs : ∀ s : Schedule, (s.run d.channel d.properties d.body).wp (Program.free allowed started)
      (fun h r => Program.spent cost started fund h ≤ fund (.scheduled s) ∧
        r ≠ .error .exception) [])
    (hok : ∀ r, allowed ⟨.callback d.properties d.body, .ok r⟩ →
      cost ⟨.callback d.properties d.body, .ok r⟩ +
        fund (.scheduled (.of self d.properties d.deliveryTag none)) ≤ fund .work)
    (herror : ∀ x, allowed ⟨.callback d.properties d.body, .error x⟩ →
      cost ⟨.callback d.properties d.body, .error x⟩ +
        fund (.scheduled (.of self d.properties d.deliveryTag (some x))) ≤ fund .work) :
    (offloaded self d.channel d.method d.properties d.body).wp (Program.free allowed started)
      (fun h _ => Program.spent cost started fund h ≤ fund .work) [] := by
  have hdone : ∀ (r : Except Raised Returned) (exc : Option Raised),
      cost ⟨.callback d.properties d.body, r⟩ +
        fund (.scheduled (.of self d.properties d.deliveryTag exc)) ≤ fund .work →
      (onDone self d.channel d.method d.properties d.body exc).wp (Program.free allowed started)
        (fun h _ => Program.spent cost started fund h ≤ fund .work)
        [⟨.callback d.properties d.body, r⟩] := by
    intro r exc hle
    refine Program.wp_mono (fun h _ hh => hh.trans ?_) _ _ (onDone_spent hcost hs exc _)
    simpa [started] using hle
  simp only [offloaded, callback, Program.bind_eq, Program.wp_bind, Program.wp_attempt,
    Program.wp_ask]
  refine ⟨trivial, fun r hr => ⟨fun _ _ => trivial, ?_⟩⟩
  cases r with
  | ok r => exact hdone _ _ (hok r hr)
  | error x => exact hdone _ _ (herror x hr)

end

/-! ## The callback ends once -/

/-- The call ends the user callback. -/
def finishCost (path : Path) (e : Call) : Nat := if (finish path e).isSome then 1 else 0

def finishFund : Job → Nat
  | .scheduled _ => 0
  | _ => 1

/-- The call submits the callback, or finds that it cannot be submitted. -/
def enterCost : Call → Nat
  | ⟨.acquire, r⟩ => match r with
    | .ok _ => 0
    | .error _ => 1
  | ⟨.submit, _⟩ => 1
  | _ => 0

def enterFund : Job → Nat
  | .offloading => 1
  | .task => 1
  | _ => 0

/-- The call is an ack or a nack; an accepted `submit` counts as one more. -/
def settleCost : Call → Nat
  | ⟨.basicAck _ _, _⟩ => 1
  | ⟨.basicNack _ _ _, _⟩ => 1
  | ⟨.submit, r⟩ => match r with
    | .ok _ => 1
    | .error _ => 0
  | _ => 0

def settleFund : Job → Nat
  | .direct => 2
  | .offloading => 2
  | .task => 3
  | .work => 1
  | .scheduled _ => 1

/-- The call is a publish. -/
def publishCost : Call → Nat
  | ⟨.basicPublish _ _ _ _ _, _⟩ => 1
  | ⟨.defaultExchangePublish _ _ _, _⟩ => 1
  | _ => 0

def publishFund : Job → Nat
  | .direct => 0
  | _ => 1

/-- What a program has spent on the four kinds of call is within its means. -/
def Thrifty (path : Path) (l : Job) (h : List Call) : Prop :=
  (Program.spent (finishCost path) started finishFund h ≤ finishFund l ∧
    Program.spent enterCost started enterFund h ≤ enterFund l) ∧
  Program.spent settleCost started settleFund h ≤ settleFund l ∧
    Program.spent publishCost started publishFund h ≤ publishFund l

section

variable {path : Path} {self : Settings} {d : Delivery} {l : Job} {h : List Call}

theorem internalWrapper_thrifty :
    (internalWrapper self d.channel d.method d.properties d.body).wp
      (Program.free anyAnswer started) (fun h _ => Thrifty path .direct h) [] := by
  rcases self with ⟨dest, _ | _⟩
  all_goals
    simp [internalWrapper, Delivery.method, started, Thrifty, finishCost, finish, finishFund,
      enterCost, enterFund, settleCost, settleFund, publishCost, publishFund]
    try split <;> simp

theorem offloadWrapper_thrifty :
    (offloadWrapper ⟨self, true⟩ d.channel d.method d.properties d.body).wp
      (Program.free anyAnswer started) (fun h _ => Thrifty path .offloading h) [] := by
  -- a delivery that is handled directly after all has not entered but once
  have hinternal : ∀ {h : List Call}, (Program.spent (finishCost path) started finishFund h = 0 ∧
        Program.spent enterCost started enterFund h ≤ 1) ∧
        Program.spent settleCost started settleFund h = 0 ∧
          Program.spent publishCost started publishFund h ≤ 1 →
      (internalWrapper self d.channel d.method d.properties d.body).wp
        (Program.free anyAnswer started) (fun h _ => Thrifty path .offloading h) h := by
    intro h hh
    rw [← List.append_nil h, Program.wp_free_append]
    refine Program.wp_mono (fun h' r hr => ?_) _ _ (@internalWrapper_thrifty path self d)
    unfold Thrifty at hr ⊢
    simp only [Program.spent_append, finishFund, enterFund, settleFund, publishFund] at hr ⊢
    omega
  simp [offloadWrapper, Delivery.method, started]
  refine ⟨⟨⟨?_, ⟨hinternal ?_, hinternal ?_, ?_⟩, ?_⟩, hinternal ?_, ?_⟩, ?_⟩
  all_goals
    simp [Thrifty, started, finishCost, finish, finishFund, enterCost, enterFund, settleCost,
      settleFund, publishCost, publishFund]

theorem scheduled_thrifty (path : Path) (s : Schedule) :
    (s.run d.channel d.properties d.body).wp (Program.free anyAnswer started)
      (fun h r => Thrifty path (.scheduled s) h ∧ r ≠ .error .exception) [] := by
  cases s with
  | ack tag =>
    simp [Schedule.run, ackOffloaded, started, Thrifty, finishCost, finish, finishFund, enterCost,
      enterFund, settleCost, settleFund, publishCost, publishFund]
  | fail tag cfg attempt =>
    rcases hq : cfg.poisonQueue attempt with _ | q
    all_goals
      simp [Schedule.run, handleFail, hq, Program.wp_ite, started, Thrifty, finishCost, finish,
        finishFund, enterCost, enterFund, settleCost, settleFund, publishCost, publishFund]

/-- The `except` branch acks and nacks once each at most. -/
theorem handlerFailed_thrifty :
    (handlerFailed self d.message).wp (Program.free anyAnswer started)
      (fun h _ => (Program.spent (finishCost path) started finishFund h = 0 ∧
        Program.spent enterCost started enterFund h = 0) ∧
        Program.spent settleCost started settleFund h ≤ 2 ∧
          Program.spent publishCost started publishFund h ≤ 1) [] := by
  have hcfg : self.config.poisonQueue (retryAttemptFromHeaders d.message.headers) =
      d.poisonQueue self := rfl
  rcases hq : d.poisonQueue self with _ | q
  all_goals
    simp [handlerFailed, publishPoison, IncomingMessage.ack, IncomingMessage.nack, hcfg, hq,
      Program.wp_ite, started, finishCost, finish, enterCost, settleCost, publishCost]

theorem runHandler_thrifty :
    (runHandler self d.message).wp
      (Program.free anyAnswer started) (fun h _ => Thrifty path .task h) [] := by
  -- what was spent before the handler failed leaves enough
  have hfailed : ∀ {h : List Call}, ((Program.spent (finishCost path) started finishFund h ≤ 1 ∧
        Program.spent enterCost started enterFund h ≤ 1) ∧
        Program.spent settleCost started settleFund h ≤ 1 ∧
          Program.spent publishCost started publishFund h = 0) →
      (handlerFailed self d.message).wp (Program.free anyAnswer started)
        (fun h _ => (Program.spent (finishCost path) started finishFund h ≤ 1 ∧
          Program.spent enterCost started enterFund h ≤ 1) ∧
          Program.spent settleCost started settleFund h ≤ 3 ∧
            Program.spent publishCost started publishFund h ≤ 1) h := by
    intro h hh
    rw [← List.append_nil h, Program.wp_free_append]
    refine Program.wp_mono (fun h' r hr => ?_) _ _ (@handlerFailed_thrifty path self d)
    simp only [Program.spent_append]
    omega
  have hfinish : ((if path = .async then 0 else 1) + if path = .async then 1 else 0) ≤ 1 := by
    split <;> decide
  simp [runHandler, IncomingMessage.ack, Program.wp_ite, started, Thrifty, finishCost, finish,
    finishFund, enterCost, enterFund, settleCost, settleFund, publishCost, publishFund]
  refine ⟨⟨fun _ => hfailed ?_, ⟨⟨fun _ => ⟨hfinish, hfailed ?_, hfinish⟩, fun _ => hfinish⟩,
    hfailed ?_, hfinish⟩, fun _ => hfailed ?_⟩, hfailed ?_⟩
  all_goals simp [started, finishCost, finish, enterCost, settleCost, publishCost, hfinish]

theorem finishCost_le_one (path : Path) (e : Call) : finishCost path e ≤ 1 := by
  unfold finishCost
  split <;> omega

theorem Minor.costs (path : Path) {e : Call} (he : Minor e.op) :
    (finishCost path e = 0 ∧ enterCost e = 0) ∧ settleCost e = 0 ∧ publishCost e = 0 := by
  obtain ⟨o, r⟩ := e
  cases o with
  | inc | connectionIsOpen | addCallbackThreadsafe | release => exact ⟨⟨rfl, rfl⟩, rfl, rfl⟩
  | _ => exact he.elim

/-- The callback may end once more, and nothing else is spent where it runs. -/
theorem offloaded_thrifty (path : Path) :
    (offloaded self d.channel d.method d.properties d.body).wp
      (Program.free anyAnswer started) (fun h _ => Thrifty path .work h) [] := by
  have hs := scheduled_thrifty (d := d) path
  refine Program.wp_and _ _ (Program.wp_and _ _ ?_ ?_) (Program.wp_and _ _ ?_ ?_)
  · exact offloaded_spent (fun _ he => (he.costs path).1.1)
      (fun s => Program.wp_mono (fun _ _ ht => ⟨ht.1.1.1, ht.2⟩) _ _ (hs s))
      (fun r _ => finishCost_le_one path ⟨.callback d.properties d.body, .ok r⟩)
      (fun x _ => finishCost_le_one path ⟨.callback d.properties d.body, .error x⟩)
  · exact offloaded_spent (fun _ he => (he.costs path).1.2)
      (fun s => Program.wp_mono (fun _ _ ht => ⟨ht.1.1.2, ht.2⟩) _ _ (hs s))
      (fun _ _ => Nat.le_refl 0) (fun _ _ => Nat.le_refl 0)
  · exact offloaded_spent (fun _ he => (he.costs path).2.1)
      (fun s => Program.wp_mono (fun _ _ ht => ⟨ht.1.2.1, ht.2⟩) _ _ (hs s))
      (fun _ _ => Nat.le_refl 1) (fun _ _ => Nat.le_refl 1)
  · exact offloaded_spent (fun _ he => (he.costs path).2.2)
      (fun s => Program.wp_mono (fun _ _ ht => ⟨ht.1.2.2, ht.2⟩) _ _ (hs s))
      (fun _ _ => Nat.le_refl 1) (fun _ _ => Nat.le_refl 1)

theorem code_thrifty (path : Path) (l : Job) :
    (l.code self d).wp (Program.free anyAnswer started) (fun h _ => Thrifty path l h) [] := by
  cases l with
  | direct => exact Listener.wp_direct (fun _ _ _ => id) internalWrapper_thrifty
  | offloading => exact offloadWrapper_thrifty
  | task => exact runHandler_thrifty
  | work => exact offloaded_thrifty path
  | scheduled s => exact Program.wp_mono (fun _ _ ht => ht.1) _ _ (scheduled_thrifty path s)

end

/-! ## What the budgets give -/

section

variable {path : Path} {self : Settings} {d : Delivery} {s : Handling}

/-- The callback ends at most once. -/
theorem finishes_once (hs : (deliveryCrew path self d).Reach (answers anyAnswer) s) :
    (s.trace.map (finishCost path)).sum ≤ 1 := by
  refine (crew_spends finishFund exists_anyAnswer (fun l => ?_) hs).trans ?_
  · exact Program.wp_mono (fun h r ht => ht.1.1) _ _ (code_thrifty path l)
  · cases path <;> decide

theorem enters_once (hs : (deliveryCrew .offload self d).Reach (answers anyAnswer) s) :
    (s.trace.map enterCost).sum ≤ 1 := by
  refine (crew_spends enterFund exists_anyAnswer (fun l => ?_) hs).trans (Nat.le_refl 1)
  exact Program.wp_mono (fun h r ht => ht.1.2) _ _ (code_thrifty .offload l)

theorem settles_twice (hs : (deliveryCrew .offload self d).Reach (answers anyAnswer) s) :
    (s.trace.map settleCost).sum ≤ 2 := by
  refine (crew_spends settleFund exists_anyAnswer (fun l => ?_) hs).trans (Nat.le_refl 2)
  exact Program.wp_mono (fun h r ht => ht.2.1) _ _ (code_thrifty .offload l)

theorem publishes_once (hs : (deliveryCrew path self d).Reach (answers anyAnswer) s) :
    (s.trace.map publishCost).sum ≤ 1 := by
  refine (crew_spends publishFund exists_anyAnswer (fun l => ?_) hs).trans ?_
  · exact Program.wp_mono (fun h r ht => ht.2.2) _ _ (code_thrifty path l)
  · cases path <;> decide

/-- The callback ends in one way. -/
theorem finish_unique (hs : (deliveryCrew path self d).Reach (answers anyAnswer) s) {e e' : Call}
    {r r' : Except Raised Unit} (he : e ∈ s.trace) (he' : e' ∈ s.trace)
    (hf : finish path e = some r) (hf' : finish path e' = some r') : r = r' := by
  have hcost : ∀ {e : Call} {r}, finish path e = some r → finishCost path e = 1 :=
    fun h => by simp [finishCost, h]
  obtain rfl := eq_of_sum_map_le_one (finishes_once hs) he he' (hcost hf) (hcost hf')
  exact Option.some.inj (hf.symm.trans hf')

theorem not_failed_of_completed (hs : (deliveryCrew path self d).Reach (answers anyAnswer) s)
    (hok : Completed path s.trace) : ¬ Failed path s.trace := by
  rintro ⟨e', he', x, hx⟩
  obtain ⟨e, he, hf⟩ := hok
  exact absurd (finish_unique hs he he' hf hx) (by simp)

/-- On the offload path, nothing is submitted once a direct path was taken. -/
theorem not_submitted_of_direct (hs : (deliveryCrew .offload self d).Reach (answers anyAnswer) s)
    (hd : Direct .offload s.trace) : (⟨.submit, .ok ()⟩ : Call) ∉ s.trace := by
  intro hsub
  obtain ⟨e, he, x, hx⟩ := hd.resolve_left (by simp)
  have hne : (⟨.submit, .ok ()⟩ : Call) ≠ e := by rcases hx with rfl | rfl <;> simp
  have hcost : enterCost e = 1 := by rcases hx with rfl | rfl <;> rfl
  exact hne (eq_of_sum_map_le_one (enters_once hs) hsub he rfl hcost)

/-- The call is an ack or a nack. -/
def settles : Call → Bool
  | ⟨.basicAck _ _, _⟩ => true
  | ⟨.basicNack _ _ _, _⟩ => true
  | _ => false

theorem settled_length_le (l : List Call) : (l.filter settles).length ≤ (l.map settleCost).sum := by
  induction l with
  | nil => simp
  | cons e l ih =>
    have he : settles e = true → settleCost e = 1 := by
      obtain ⟨o, r⟩ := e
      cases o <;> simp [settles, settleCost]
    rw [List.map_cons, List.sum_cons, List.filter_cons]
    split
    · next h => have := he h; rw [List.length_cons]; omega
    · omega

theorem settled_le_one (hs : (deliveryCrew .offload self d).Reach (answers anyAnswer) s)
    (hsub : (⟨.submit, .ok ()⟩ : Call) ∈ s.trace) : (s.trace.filter settles).length ≤ 1 := by
  have hsum := settles_twice hs
  obtain ⟨l, l', hl⟩ := List.append_of_mem hsub
  have := settled_length_le l
  have := settled_length_le l'
  -- the accepted `submit` is worth one of the two
  have hcost : settleCost ⟨.submit, .ok ()⟩ = 1 := rfl
  have hnot : settles ⟨.submit, .ok ()⟩ = false := rfl
  simp only [hl, List.map_append, List.map_cons, List.sum_append, List.sum_cons, hcost] at hsum
  simp only [hl, List.filter_append, List.filter_cons, hnot, List.length_append, Bool.false_eq_true,
    if_false]
  omega

theorem asks_of_settles {e : Call} (he : settles e = true) :
    (∃ ch tag, e.op = .basicAck ch tag) ∨ ∃ ch tag requeue, e.op = .basicNack ch tag requeue := by
  obtain ⟨o, r⟩ := e
  cases o <;> simp_all [settles]

/-! ## The claims -/

end

/-- The calls `h` justify an ack of `d`: the callback completed, or it raised,
the attempt count reached `max_retries` and the body was published to the
dead-letter queue. -/
def Justified (path : Path) (self : Settings) (d : Delivery) (h : List Call) : Prop :=
  Completed path h ∨ (Failed path h ∧ ∃ deadLetterQueue,
    self.config.deadLetterQueue = some deadLetterQueue ∧ deadLetterQueue ≠ "" ∧
    self.config.maxRetries ≤ retryAttemptFromHeaders (headersOf d.properties) ∧
    Ended h (.publish "" deadLetterQueue d.body) (.ok ()))

/-- **An ack is issued only for a delivery that is done or given up**: it is an
ack of this delivery, justified by the calls before it. -/
theorem ack_safe {path : Path} {self : Settings} {sys : List (Delivery × Handling)}
    (hs : (deliveries path self).Reach (deliveryAnswers anyAnswer) sys)
    {d : Delivery} {s : Handling} (hd : (d, s) ∈ sys)
    {p q : List Call} {ch tag : Nat} {r : Except Raised Unit}
    (hack : s.trace = p ++ ⟨.basicAck ch tag, r⟩ :: q) :
    (ch = d.channel ∧ tag = d.deliveryTag) ∧ Justified path self d p := by
  obtain ⟨hch, htag, hc | ⟨hf, dlq, hq, he⟩⟩ :=
    lawful_of_trace (delivery_reach hs hd) hack (a := .ack ch tag) rfl
  · exact ⟨⟨hch, htag⟩, Or.inl hc⟩
  · obtain ⟨hdlq, hne, hmax⟩ := DeadLetteringConfig.poisonQueue_eq_some.mp hq
    exact ⟨⟨hch, htag⟩, Or.inr ⟨hf, dlq, hdlq, hne, hmax, he⟩⟩

/-- A listener with a dead-letter queue and the default of one attempt. -/
def poisonSettings : Settings where
  destination := [("queue_args", .dict "" [("dead_letter_queue", .str "dlq")])]
  autoAck := false

def firstDelivery : Delivery := ⟨0, 1, none, [104, 105]⟩

/-- The async path on a callback that raises, up to the ack of the poison
branch. -/
def poisonRun : Handling :=
  handled .async poisonSettings firstDelivery
    (answering (.error .exception) (.ok ()) (.ok ())) [0, 0, 0, 0, 0, 0, 0]

theorem ack_safe_poison :
    (0 = firstDelivery.channel ∧ 1 = firstDelivery.deliveryTag) ∧
      Justified .async poisonSettings firstDelivery (poisonRun.trace.take 5) :=
  ack_safe (reach_delivery (handled_reach (fun _ => trivial) _)) (List.mem_singleton_self _)
    (show poisonRun.trace = poisonRun.trace.take 5 ++ ⟨.basicAck 0 1, .ok ()⟩ ::
      poisonRun.trace.drop 6 from rfl)

/-- **A delivery that the executor took is settled at most once**, on the
channel that delivered it, with its own tag, after its callback finished. -/
theorem offload_settles_once {self : Settings} {sys : List (Delivery × Handling)}
    (hs : (deliveries .offload self).Reach (deliveryAnswers anyAnswer) sys)
    {d : Delivery} {s : Handling} (hd : (d, s) ∈ sys)
    (hsub : (⟨.submit, .ok ()⟩ : Call) ∈ s.trace) :
    (s.trace.filter settles).length ≤ 1 ∧
      ∀ p e q, s.trace = p ++ e :: q → settles e = true →
        (e.op = .basicAck d.channel d.deliveryTag ∨
          ∃ requeue, e.op = .basicNack d.channel d.deliveryTag requeue) ∧
        (Completed .offload p ∨ Failed .offload p) := by
  have hr := delivery_reach hs hd
  refine ⟨settled_le_one hr hsub, fun p e q hst he => ?_⟩
  rcases asks_of_settles he with ⟨ch, tag, ho⟩ | ⟨ch, tag, requeue, ho⟩
  · obtain ⟨rfl, rfl, hc⟩ := lawful_of_trace hr hst (a := .ack ch tag) (by rw [ho]; rfl)
    exact ⟨Or.inl ho, hc.imp_right And.left⟩
  · obtain ⟨rfl, rfl, hc⟩ := lawful_of_trace hr hst (a := .nack ch tag requeue) (by rw [ho]; rfl)
    refine ⟨Or.inr ⟨requeue, ho⟩, Or.inr (hc.resolve_right fun hdir => ?_)⟩
    refine not_submitted_of_direct hr (hdir.1.mono ?_) hsub
    rw [hst]
    exact List.sublist_append_left _ _

/-- The offload path on a callback that completes: the wrapper, the submitted
callback and the function queued for the I/O thread. -/
def offloadRun : Handling :=
  handled .offload poisonSettings firstDelivery
    (answering (.ok .value) (.ok ()) (.ok ())) [0, 0, 0, 0, 0, 1, 1, 1, 1, 2, 2]

theorem offload_settles_once_run :
    (offloadRun.trace.filter settles).length ≤ 1 ∧
      ∀ p e q, offloadRun.trace = p ++ e :: q → settles e = true →
        (e.op = .basicAck firstDelivery.channel firstDelivery.deliveryTag ∨
          ∃ requeue, e.op = .basicNack firstDelivery.channel firstDelivery.deliveryTag requeue) ∧
        (Completed .offload p ∨ Failed .offload p) :=
  offload_settles_once (reach_delivery (handled_reach (fun _ => trivial) _))
    (List.mem_singleton_self _)
    (List.mem_of_getElem? (show offloadRun.trace[3]? = some ⟨.submit, .ok ()⟩ from rfl))

/-! ## A callback that completed -/

/-- The delivery is nacked or published to the dead-letter queue. -/
def BrokerAction.rejects : BrokerAction → Bool
  | .publish _ _ _ => true
  | .ack _ _ => false
  | .nack _ _ _ => true

def rejects (e : Call) : Bool := (asks e.op).any BrokerAction.rejects

/-- Some call rejects the delivery. -/
def Rejected (h : List Call) : Prop := ∃ e ∈ h, rejects e = true

def DirectAckRaised (path : Path) (d : Delivery) (h : List Call) : Prop :=
  Direct path h ∧ Ended h (.ack d.channel d.deliveryTag) (.error .exception)

@[simp] theorem rejected_nil : ¬ Rejected [] := by simp [Rejected]

@[simp] theorem rejected_cons {e : Call} {h : List Call} :
    Rejected (e :: h) ↔ rejects e = true ∨ Rejected h := by
  simp [Rejected]

@[simp] theorem rejected_append {h h' : List Call} :
    Rejected (h ++ h') ↔ Rejected h ∨ Rejected h' := by
  simp [Rejected, or_and_right, exists_or]

/-- The rules under which the wrappers and the task are started: no ack of the
delivery has raised yet. -/
def ackRules (d : Delivery) : Program.Rules Op Op.Ans Job where
  allowed := anyAnswer
  guard _ _ := True
  spawn := started
  pre
    | .work, _ | .scheduled _, _ => True
    | _, h => ¬ Ended h (.ack d.channel d.deliveryTag) (.error .exception)

/-- Once an ack raised, the wrappers and the task go on to reject the delivery. -/
def ackPost (d : Delivery) (l : Job) (h : List Call) (_ : Except Raised Unit) : Prop :=
  match l with
  | .work | .scheduled _ => True
  | _ => Ended h (.ack d.channel d.deliveryTag) (.error .exception) → Rejected h

section

variable {self : Settings} {d : Delivery} {h : List Call}

@[simp] theorem ackRules_guard (o : Op) : (ackRules d).guard h o ↔ True := Iff.rfl

@[simp] theorem ackRules_allowed (e : Call) : (ackRules d).allowed e ↔ True := Iff.rfl

@[simp] theorem ackRules_spawn : (ackRules d).spawn = started := rfl

/-- What `submit` and `add_callback_threadsafe` start may rely on nothing. -/
@[simp] theorem ackRules_started (e : Call) : (∀ l ∈ started e, (ackRules d).pre l h) ↔ True := by
  obtain ⟨o, r⟩ := e
  cases o with
  | submit => cases r <;> simp [started, ackRules]
  | addCallbackThreadsafe s => cases r <;> simp [started, ackRules]
  | _ => simp [started]

theorem internalWrapper_ackPost
    (hne : ¬ Ended h (.ack d.channel d.deliveryTag) (.error .exception)) :
    (internalWrapper self d.channel d.method d.properties d.body).wp (ackRules d)
      (fun h' _ => Ended h' (.ack d.channel d.deliveryTag) (.error .exception) → Rejected h')
      h := by
  rcases self with ⟨dest, _ | _⟩
  all_goals
    simp [internalWrapper, Delivery.method, broker, rejects, asks, BrokerAction.rejects, hne]

theorem offloadWrapper_ackPost
    (hne : ¬ Ended h (.ack d.channel d.deliveryTag) (.error .exception)) :
    (offloadWrapper ⟨self, true⟩ d.channel d.method d.properties d.body).wp (ackRules d)
      (fun h' _ => Ended h' (.ack d.channel d.deliveryTag) (.error .exception) → Rejected h')
      h := by
  simp [offloadWrapper, broker, hne]
  refine ⟨⟨?_, ?_⟩, ?_⟩ <;> exact internalWrapper_ackPost (by simp [broker, hne])

/-- The `except` branch of the task asks for a publish or a nack. -/
theorem handlerFailed_rejects (hauto : self.autoAck = false) :
    (handlerFailed self d.message).wp (ackRules d) (fun h' _ => Rejected h') h := by
  have hcfg : self.config.poisonQueue (retryAttemptFromHeaders d.message.headers) =
      d.poisonQueue self := rfl
  rcases hq : d.poisonQueue self with _ | q
  all_goals
    simp [handlerFailed, publishPoison, IncomingMessage.ack, IncomingMessage.nack, hcfg, hq, hauto,
      Program.wp_ite, rejects, asks, BrokerAction.rejects]

theorem runHandler_ackPost
    (hne : ¬ Ended h (.ack d.channel d.deliveryTag) (.error .exception)) :
    (runHandler self d.message).wp (ackRules d)
      (fun h' _ => Ended h' (.ack d.channel d.deliveryTag) (.error .exception) → Rejected h')
      h := by
  rcases hauto : self.autoAck with _ | _
  · have hfail : ∀ {h'} {Q : List Call → Except Raised Unit → Prop},
        (∀ h'' r, Rejected h'' → Q h'' r) → (handlerFailed self d.message).wp (ackRules d) Q h' :=
      fun hQ => Program.wp_mono hQ _ _ (handlerFailed_rejects hauto)
    simp [runHandler, IncomingMessage.ack, Program.wp_ite, hauto, broker, hne]
    refine ⟨⟨?_, ⟨?_, ?_⟩, ?_⟩, ?_⟩
    all_goals exact hfail fun h'' r hr => ⟨fun _ => .inl hr, fun _ => .inl hr, fun _ => .inl hr⟩
  · simp [runHandler, handlerFailed, Program.wp_ite, hauto, broker, hne]

theorem code_ackPost (l : Job) (h : List Call) (hl : (ackRules d).pre l h) :
    (l.code self d).wp (ackRules d) (ackPost d l) h := by
  have hspawn : ∀ e, ∀ l ∈ started e, ∀ h, (ackRules d).pre l h :=
    fun e l hl h => (iff_true _).mp (ackRules_started e) l hl
  cases l with
  | direct => exact Listener.wp_direct (fun _ _ _ => id) (internalWrapper_ackPost hl)
  | offloading => exact offloadWrapper_ackPost hl
  | task => exact runHandler_ackPost hl
  | work => exact Program.wp_trivial (fun _ _ => trivial) (fun _ _ => trivial) hspawn _ _
  | scheduled s => exact Program.wp_trivial (fun _ _ => trivial) (fun _ _ => trivial) hspawn _ _

end

/-- On a direct path nothing is started. -/
theorem nothing_started {path : Path} {self : Settings} {d : Delivery} {s : Handling}
    (hs : (deliveryCrew path self d).Reach (answers anyAnswer) s) (hd : Direct path s.trace) :
    ∀ e ∈ s.trace, started e = [] := by
  intro e he
  by_contra hne
  obtain ⟨p, q, hst⟩ := List.append_of_mem he
  obtain ⟨h, hsub, -, hg⟩ := (deliveryCrew_kept hs).guarded p e q hst
  obtain ⟨rfl, ho | hsubmit⟩ := hg e.answer hne
  · refine not_submitted_of_direct hs hd ?_
    obtain ⟨o, r⟩ := e
    obtain rfl : o = .submit := ho
    rcases r with x | u
    · exact absurd rfl hne
    · exact he
  · refine not_submitted_of_direct hs hd ?_
    rw [hst]
    exact List.mem_append_left _ (hsub.subset hsubmit)

theorem not_rejected_of_completed {path : Path} {self : Settings} {d : Delivery} {s : Handling}
    (hs : (deliveryCrew path self d).Reach (answers anyAnswer) s) (hok : Completed path s.trace)
    (hack : ¬ DirectAckRaised path d s.trace) : ¬ Rejected s.trace := by
  rintro ⟨e, he, hrej⟩
  obtain ⟨a, ha, hra⟩ : ∃ a, asks e.op = some a ∧ a.rejects = true := by
    simpa [rejects, Option.any_eq_true] using hrej
  obtain ⟨p, q, hst⟩ := List.append_of_mem he
  have hp : p.Sublist s.trace := hst ▸ List.sublist_append_left _ _
  have hlaw := (lawful_of_trace hs hst ha).mono hp
  have hnf := not_failed_of_completed hs hok
  cases a with
  | ack ch tag => exact absurd hra (by simp [BrokerAction.rejects])
  | nack ch tag requeue =>
    obtain ⟨rfl, rfl, hf | hdir⟩ := hlaw
    · exact hnf hf
    · exact hack hdir
  | publish exchange q body =>
    obtain ⟨-, -, -, hf | hdir⟩ := hlaw
    · exact hnf hf
    · exact hack hdir

theorem rejected_of_directAckRaised {path : Path} {self : Settings} {d : Delivery} {s : Handling}
    (hs : (deliveryCrew path self d).Reach (answers anyAnswer) s) (hc : s.Complete)
    (hack : DirectAckRaised path d s.trace) : Rejected s.trace := by
  have hkept : Kept (ackRules d) (ackPost d) path.job s :=
    crew_kept code_ackPost (by cases path <;> simp [Path.job, ackRules]) hs
  obtain ⟨_, hpost⟩ := hkept.solo hs (nothing_started hs hack.1) hc
  cases path <;> exact hpost hack.2

/-- **A delivery whose callback completed is rejected exactly when an ack on a
direct path raised**: the wrapper without executor and the task ack inside the
`try` of the callback. -/
theorem completed_not_rejected_iff {path : Path} {self : Settings}
    {sys : List (Delivery × Handling)}
    (hs : (deliveries path self).Reach (deliveryAnswers anyAnswer) sys)
    {d : Delivery} {s : Handling} (hd : (d, s) ∈ sys) (hok : Completed path s.trace) :
    (¬ DirectAckRaised path d s.trace → ¬ Rejected s.trace) ∧
      (s.Complete → (¬ Rejected s.trace ↔ ¬ DirectAckRaised path d s.trace)) := by
  have hr := delivery_reach hs hd
  exact ⟨not_rejected_of_completed hr hok,
    fun hc => ⟨mt (rejected_of_directAckRaised hr hc), not_rejected_of_completed hr hok⟩⟩

/-- The path without executor on a callback that completes and an ack that
raises. -/
def ackRaisedRun : Handling :=
  handled .internal poisonSettings firstDelivery
    (answering (.ok .value) (.error .exception) (.ok ())) [0, 0, 0, 0, 0, 0]

theorem ackRaisedRun_complete : ackRaisedRun.Complete := by
  intro t ht
  obtain rfl := List.mem_singleton.mp ht
  rfl

theorem ackRaisedRun_completed : Completed .internal ackRaisedRun.trace :=
  ⟨⟨.callback firstDelivery.properties firstDelivery.body, .ok .value⟩,
    List.mem_of_getElem? (i := 2) rfl, rfl⟩

theorem completed_not_rejected_iff_internal :
    ¬ Rejected ackRaisedRun.trace ↔ ¬ DirectAckRaised .internal firstDelivery ackRaisedRun.trace :=
  (completed_not_rejected_iff (reach_delivery (handled_reach (fun _ => trivial) _))
    (List.mem_singleton_self _) ackRaisedRun_completed).2 ackRaisedRun_complete

/-- A completed callback is followed by a nack. -/
theorem completed_rejected :
    ∃ s, (deliveryCrew .internal poisonSettings firstDelivery).Reach (answers anyAnswer) s ∧
      Completed .internal s.trace ∧
      (⟨.basicNack firstDelivery.channel firstDelivery.deliveryTag true, .ok ()⟩ : Call) ∈
        s.trace :=
  ⟨ackRaisedRun, handled_reach (fun _ => trivial) _, ackRaisedRun_completed,
    List.mem_of_getElem? (i := 4) rfl⟩

end MqAdapters
