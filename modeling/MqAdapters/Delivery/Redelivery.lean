import Mathlib.Algebra.Order.Floor.Div
import MqAdapters.Delivery.Settlement

/-!
# One message between the broker and a listener

A message whose callback always raises is delivered, handled and settled again
and again.  `life m` is the broker's side of this: it holds the message and its
`x-death` entries, and does what the listener asks of it.  A dead-lettered
message passes through the queues named in the action, one dead-lettering each,
and comes back to the queue of the listener.  The handlings are complete runs of
`deliveryCrew`.

* `retried_until_poison`: with `on_error` `"dead_letter"` the message is handled
  `rounds n d` times, where every cycle counts `d` dead-letterings.
* `requeued_or_poison`: with `on_error` `"requeue"` it is handled once or for
  ever.
-/

namespace MqAdapters

open Python Theory Code

/-- An entry of the `x-death` header. -/
structure Death where
  queue : String
  reason : String
  count : Nat
  deriving DecidableEq

/-- The entry as a Python object; its `str` is never looked at. -/
def Death.entry (x : Death) : Value :=
  .dict "" [("count", .int x.count), ("reason", .str x.reason), ("queue", .str x.queue)]

/-- The broker dead-letters a message from `queue` for `reason`: one more for
their entry, or a new entry with count 1. -/
def deadLetter (queue reason : String) : List Death → List Death
  | [] => [⟨queue, reason, 1⟩]
  | x :: xs =>
    if x.queue = queue ∧ x.reason = reason then { x with count := x.count + 1 } :: xs
    else x :: deadLetter queue reason xs

def noProperties : BasicProperties where
  contentType := .none
  contentEncoding := .none
  headers := none
  deliveryMode := .none
  priority := .none
  correlationId := .none
  replyTo := .none
  expiration := .none
  messageId := .none
  timestamp := .none
  type := .none
  userId := .none
  appId := .none
  clusterId := .none

/-- The properties a message is delivered with after it was dead-lettered. -/
def withDeaths (properties : Option BasicProperties) : List Death → Option BasicProperties
  | [] => properties
  | deaths => some { properties.getD noProperties with
      headers := some (("x-death", .list "" (deaths.map Death.entry)) ::
        (headersOf properties).getD []) }

/-- A message as it was published. -/
structure Message where
  properties : Option BasicProperties
  body : Bytes

/-- The message has no `x-death` header. -/
def Message.Fresh (m : Message) : Prop :=
  ((headersOf m.properties).getD []).lookup "x-death" = none

inductive Place
  | ready
  | unacked
  | acked
  deriving DecidableEq

/-- The message at the broker. -/
structure Life where
  place : Place
  deaths : List Death
  /-- how often the callback was called with it -/
  handed : Nat
  /-- the queues it was published to, with the body -/
  published : List (String × Bytes)

/-- A delivery on a channel under a tag, how it was handled, and the queues and
reasons the message passes through if it is dead-lettered. -/
structure Turn where
  channel : Nat
  deliveryTag : Nat
  handling : Handling
  hops : List (String × String)

/-- The call is one of the user callback. -/
def callCost : Call → Nat
  | ⟨.callback _ _, _⟩ => 1
  | _ => 0

def callbacks (h : List Call) : Nat := (h.map callCost).sum

namespace Life

variable (s : Life)

def delivery (m : Message) (a : Turn) : Delivery where
  channel := a.channel
  deliveryTag := a.deliveryTag
  properties := withDeaths m.properties s.deaths
  body := m.body

/-- The dead-letterings of one cycle. -/
def deadLettered (hops : List (String × String)) : List Death :=
  hops.foldl (fun deaths hop => deadLetter hop.1 hop.2 deaths) s.deaths

/-- The broker does what it is asked to. -/
def obey (a : Turn) : BrokerAction → Life
  | .publish _ routingKey body => { s with published := s.published ++ [(routingKey, body)] }
  | .ack channel deliveryTag =>
    if channel = a.channel ∧ deliveryTag = a.deliveryTag then { s with place := .acked } else s
  | .nack channel deliveryTag requeue =>
    if channel = a.channel ∧ deliveryTag = a.deliveryTag then
      if requeue then { s with place := .ready }
      else { s with place := .ready, deaths := s.deadLettered a.hops }
    else s

/-- Deliver the message, let it be handled, and do what was asked. -/
def step (a : Turn) : Option Life :=
  match s.place with
  | .ready => some ((actions a.handling.trace).foldl (fun s x => s.obey a x) { s with
      place := .unacked
      handed := s.handed + callbacks a.handling.trace })
  | _ => none

/-- The message has just been published to the queue of the listener. -/
def initial : Life := ⟨.ready, [], 0, []⟩

end Life

def life : Machine Life Turn where
  init := Life.initial
  step := Life.step

/-- The delivery was handled to its end and the callback raised; on the async
path an exception that `except Exception` catches.  A cycle has `d`
dead-letterings. -/
structure Fails (path : Path) (settings : Settings) (m : Message) (d : Nat) (s : Life) (a : Turn) :
    Prop where
  handled : ∃ x, (path = .async → x = .exception) ∧
    Handled path settings (s.delivery m a) (.error x) a.handling
  hops : a.hops.length = d

/-! ## The attempt count -/

theorem sum_deadLetter (queue reason : String) (deaths : List Death) :
    ((deadLetter queue reason deaths).map (·.count)).sum = (deaths.map (·.count)).sum + 1 := by
  induction deaths with
  | nil => rfl
  | cons x xs ih =>
    rw [deadLetter]
    split
    · simp only [List.map_cons, List.sum_cons]
      omega
    · simp only [List.map_cons, List.sum_cons, ih]
      omega

theorem sum_deadLettered (s : Life) (hops : List (String × String)) :
    ((s.deadLettered hops).map (·.count)).sum = (s.deaths.map (·.count)).sum + hops.length := by
  unfold Life.deadLettered
  generalize s.deaths = deaths
  induction hops generalizing deaths with
  | nil => rfl
  | cons hop hops ih =>
    rw [List.foldl_cons, ih, sum_deadLetter, List.length_cons]
    omega

theorem deathCounts_entries (deaths : List Death) :
    (deathCounts (deaths.map Death.entry)).sum = ((deaths.map (·.count)).sum : Nat) := by
  induction deaths with
  | nil => rfl
  | cons x xs ih =>
    have hx : deathCounts ((x :: xs).map Death.entry) =
        (x.count : Int) :: deathCounts (xs.map Death.entry) := rfl
    rw [hx, List.sum_cons, ih, List.map_cons, List.sum_cons, Nat.cast_add]

/-- The attempt of a message is one more than its dead-letterings. -/
theorem attempt_withDeaths {m : Message} (hm : m.Fresh) (deaths : List Death) :
    retryAttemptFromHeaders (headersOf (withDeaths m.properties deaths)) =
      1 + ((deaths.map (·.count)).sum : Nat) := by
  cases deaths with
  | nil =>
    rcases hh : headersOf m.properties with _ | headers
    · simp [withDeaths, hh, retryAttemptFromHeaders]
    · have hx : headers.lookup "x-death" = none := by simpa [Message.Fresh, hh] using hm
      simp [withDeaths, hh, retryAttemptFromHeaders, Dict.get, Dict.getD, hx, Value.truthy]
  | cons x xs =>
    have hattempt : retryAttemptFromHeaders (headersOf (withDeaths m.properties (x :: xs))) =
        1 + max 0 (deathCounts ((x :: xs).map Death.entry)).sum := rfl
    rw [hattempt, deathCounts_entries]
    omega

/-! ## The callback is called once -/

section

variable {path : Path} {self : Settings} {d : Delivery} {h : List Call}

/-- Where no coroutine is awaited, the callback ends when its call does. -/
theorem callCost_eq (e : Call) : callCost e = finishCost .internal e := by
  obtain ⟨o, r⟩ := e
  cases o with
  | callback properties body => cases r <;> rfl
  | _ => rfl

theorem code_callbacks (l : Job) : (l.code self d).wp (Program.free anyAnswer started)
    (fun h _ => Program.spent callCost started finishFund h ≤ finishFund l) [] := by
  rw [show callCost = finishCost .internal from funext callCost_eq]
  exact Program.wp_mono (fun _ _ ht => ht.1.1) _ _ (code_thrifty .internal l)

/-- The rules of the task: it awaits the result of a callback that it called. -/
def awaitRules : Program.Rules Op Op.Ans Job where
  allowed := anyAnswer
  guard h o := o = .awaitResult → ∃ e ∈ h, callCost e = 1
  spawn := started
  pre l _ := l = .task

@[simp] theorem awaitRules_guard (o : Op) :
    awaitRules.guard h o ↔ (o = .awaitResult → ∃ e ∈ h, callCost e = 1) := Iff.rfl

@[simp] theorem awaitRules_allowed (e : Call) : awaitRules.allowed e ↔ True := Iff.rfl

@[simp] theorem awaitRules_spawn : awaitRules.spawn = started := rfl

theorem task_awaits : (runHandler self d.message).wp awaitRules (fun _ _ => True) h := by
  have hfailed : ∀ h, (handlerFailed self d.message).wp awaitRules (fun _ _ => True) h := by
    intro h
    rcases hq : self.config.poisonQueue (retryAttemptFromHeaders d.message.headers) with _ | q
    all_goals
      simp [handlerFailed, publishPoison, IncomingMessage.ack, IncomingMessage.nack, hq,
        Program.wp_ite, started]
  simp [runHandler, IncomingMessage.ack, Program.wp_ite, started, callCost, hfailed]

theorem called_of_finished {s : Handling}
    (hs : (deliveryCrew path self d).Reach (answers anyAnswer) s)
    (hf : Finished path s.trace) : ∃ e ∈ s.trace, callCost e = 1 := by
  obtain ⟨⟨o, r⟩, he, hfin⟩ := hf
  cases o with
  | callback properties body => exact ⟨_, he, rfl⟩
  | awaitResult =>
    obtain rfl : path = .async := by
      by_contra hp
      exact absurd hfin (by simp [finish, hp])
    have hk : Kept awaitRules (fun _ _ _ => True) .task s :=
      crew_kept (fun l h hl => by obtain rfl : l = .task := hl; exact task_awaits) rfl hs
    obtain ⟨p, q, hst⟩ := List.append_of_mem he
    obtain ⟨h, hsub, hg⟩ := hk.guarded p _ q hst
    obtain ⟨e, hmem, hcall⟩ := hg rfl
    exact ⟨e, hst ▸ List.mem_append_left _ (hsub.subset hmem), hcall⟩
  | _ => exact absurd hfin (by simp [finish])

/-- A handling whose callback has ended called it once. -/
theorem callbacks_of_handled {outcome : Except Raised Unit} {s : Handling}
    (h : Handled path self d outcome s) : callbacks s.trace = 1 := by
  have hs := anyAnswer_reach h.reach
  refine Nat.le_antisymm ?_ ?_
  · refine (crew_spends finishFund exists_anyAnswer (fun l => code_callbacks l) hs).trans ?_
    cases path <;> decide
  · obtain ⟨e, he, hcall⟩ := called_of_finished hs h.finished
    have := List.single_le_sum (by simp) _ (List.mem_map_of_mem (f := callCost) he)
    unfold callbacks
    omega

/-- A delivery handled to its end, with a callback that raises. -/
def failing (path : Path) (self : Settings) (d : Delivery) : Handling :=
  handled path self d (answering (.error .exception) (.ok ()) (.ok ()))
    (match path with
    | .internal | .async => [0, 0, 0, 0, 0, 0, 0, 0]
    | .offload => [0, 0, 0, 0, 0, 1, 1, 1, 1, 1, 2, 2, 2])

/-- The callback raises, and everything else works. -/
abbrev raising : ∀ o, Op.Ans o := answering (.error .exception) (.ok ()) (.ok ())

theorem exec_runHandler (hauto : self.autoAck = false) :
    ((runHandler self d.message).exec raising).1.length ≤ 8 ∧
      Finished .async ((runHandler self d.message).exec raising).1 ∧
      spawned (Job.code self d) started [] ((runHandler self d.message).exec raising).1 = [] := by
  rcases hq : self.config.poisonQueue (retryAttemptFromHeaders d.message.headers) with _ | q
  · cases ho : self.config.onError
    all_goals
      simp [runHandler, handlerFailed, IncomingMessage.nack, exceptException, hauto, hq, ho,
        Program.ensure, Program.exec_bind, Program.exec_handle, answering, finish, spawned, started]
  · simp [runHandler, handlerFailed, publishPoison, IncomingMessage.ack, exceptException, hauto,
      hq, Program.ensure, Program.exec_bind, Program.exec_handle, answering, finish, spawned,
      started]

theorem failing_async (hauto : self.autoAck = false) :
    (failing .async self d).Complete ∧ Finished .async (failing .async self d).trace := by
  obtain ⟨hlen, hfin, hspawn⟩ := exec_runHandler (d := d) hauto
  have hplay : failing .async self d = play (Job.code self d) started raising
      ⟨[] ++ ⟨.task, [], runHandler self d.message⟩ :: [], []⟩ (List.replicate 8 0) := rfl
  rw [hplay, play_replicate (A := []) (i := 0) rfl _ _ _ _ _ _ hlen]
  simp [Crew.Complete, hspawn, hfin]

theorem exec_offloadWrapper :
    (offloadWrapper ⟨self, true⟩ d.channel d.method d.properties d.body).exec raising =
      ([⟨.stopMe, false⟩, ⟨.inc .received, ()⟩, ⟨.acquire, .ok ()⟩, ⟨.submit, .ok ()⟩,
        ⟨.addDoneCallback, true⟩], .ok ()) := by
  simp [offloadWrapper, exceptException, Program.exec_bind, Program.exec_handle, answering]

theorem exec_offloaded (hauto : self.autoAck = false) :
    (offloaded self d.channel d.method d.properties d.body).exec raising =
      ([⟨.callback d.properties d.body, .error .exception⟩, ⟨.inc .handlerExceptions, ()⟩,
        ⟨.connectionIsOpen, true⟩,
        ⟨.addCallbackThreadsafe (.of self d.properties d.deliveryTag (some .exception)), .ok ()⟩,
        ⟨.release, .ok ()⟩], .ok ()) := by
  simp [offloaded, onDone, Delivery.method, hauto, exceptException, Program.ensure,
    Program.exec_bind, Program.exec_handle, answering]

theorem exec_scheduled (self : Settings) (d : Delivery) (past : List Call) (s : Schedule) :
    ((s.run d.channel d.properties d.body).exec raising).1.length ≤ 3 ∧
      spawned (Job.code self d) started past
        ((s.run d.channel d.properties d.body).exec raising).1 = [] := by
  cases s with
  | ack tag =>
    simp [Schedule.run, ackOffloaded, exceptException, Program.exec_bind, Program.exec_handle,
      answering, spawned, started]
  | fail tag cfg attempt =>
    rcases hq : cfg.poisonQueue attempt with _ | q
    · cases ho : cfg.onError
      all_goals
        simp [Schedule.run, handleFail, exceptException, hq, ho, Program.exec_bind,
          Program.exec_handle, answering, spawned, started]
    · simp [Schedule.run, handleFail, exceptException, hq, Program.exec_bind,
        Program.exec_handle, answering, spawned, started]

/-- The wrapper submits the callback and ends. -/
theorem play_offloadWrapper (self : Settings) (d : Delivery) : ∃ past past' : List Call,
    play (Job.code self d) started raising (deliveryCrew .offload self d).init
      (List.replicate 5 0) = ⟨[⟨.offloading, past, .pure ()⟩] ++
        ⟨.work, past', offloaded self d.channel d.method d.properties d.body⟩ :: [], past⟩ :=
  ⟨_, _, play_exec (A := []) rfl exec_offloadWrapper (Nat.le_refl 5)⟩

/-- The callback raises, and `_on_done` schedules the settlement. -/
theorem play_offloaded (hauto : self.autoAck = false) (t : Task Op Op.Ans Raised Job)
    (past trace : List Call) : ∃ (s : Schedule) (past' calls : List Call),
    play (Job.code self d) started raising
      ⟨[t] ++ ⟨.work, past, offloaded self d.channel d.method d.properties d.body⟩ :: [], trace⟩
      (List.replicate 5 1) = ⟨[t, ⟨.work, past ++ calls, .pure ()⟩] ++
        ⟨.scheduled s, past', s.run d.channel d.properties d.body⟩ :: [], trace ++ calls⟩ ∧
    Finished .offload calls :=
  ⟨_, _, _, play_exec (A := [t]) rfl (exec_offloaded hauto) (Nat.le_refl 5), by simp [finish]⟩

theorem failing_offload (hauto : self.autoAck = false) :
    (failing .offload self d).Complete ∧ Finished .offload (failing .offload self d).trace := by
  obtain ⟨past, begun, hwrapper⟩ := play_offloadWrapper self d
  obtain ⟨s, past', calls, hoffloaded, hfin⟩ :=
    play_offloaded (d := d) hauto ⟨.offloading, past, .pure ()⟩ begun past
  obtain ⟨hlen, hspawn⟩ := exec_scheduled self d past' s
  have hplay : failing .offload self d = play (Job.code self d) started raising
      (deliveryCrew .offload self d).init
      (List.replicate 5 0 ++ (List.replicate 5 1 ++ List.replicate 3 2)) := rfl
  rw [hplay, play_append, hwrapper, play_append, hoffloaded,
    play_replicate (i := 2) rfl _ _ _ _ _ _ hlen, hspawn]
  simp [Crew.Complete, hfin]

/-- Every delivery can be handled to its end with a callback that raises. -/
theorem failing_handled (hp : path ≠ .internal) (hauto : self.autoAck = false) :
    Handled path self d (.error .exception) (failing path self d) := by
  have hreach : (deliveryCrew path self d).Reach
      (answers (Smooth path (.error .exception) (.ok ()))) (failing path self d) :=
    handled_reach (fun o => by cases o <;> simp [Smooth, finish, answering, Except.map]) _
  cases path with
  | internal => exact absurd rfl hp
  | offload => exact ⟨hreach, (failing_offload hauto).1, (failing_offload hauto).2⟩
  | async => exact ⟨hreach, (failing_async hauto).1, (failing_async hauto).2⟩

/-- An exception that `except Exception` lets through leaves the delivery of the
async path unsettled. -/
theorem uncaught_unsettled (self : Settings) (d : Delivery) :
    ∃ s, Handled .async self d (.error .baseException) s ∧ actions s.trace = [] := by
  have hexec : (runHandler self d.message).exec
      (answering (.error .baseException) (.ok ()) (.ok ())) =
        ([⟨.semaphoreIsSet, true⟩, ⟨.acquire, .ok ()⟩,
          ⟨.callback d.properties d.body, .error .baseException⟩, ⟨.release, .ok ()⟩],
          .error .baseException) := by
    simp [runHandler, Delivery.message, exceptException, Program.ensure, Program.exec_bind,
      Program.exec_handle, answering]
  have hplay : handled .async self d (answering (.error .baseException) (.ok ()) (.ok ()))
      [0, 0, 0, 0] = _ :=
    play_exec (A := []) rfl hexec (Nat.le_refl 4)
  refine ⟨handled .async self d (answering (.error .baseException) (.ok ()) (.ok ())) [0, 0, 0, 0],
    ⟨handled_reach (fun o => ?_) _, ?_, ?_⟩, ?_⟩
  · cases o <;> simp [Smooth, finish, answering, Except.map]
  all_goals
    rw [hplay]
    simp [Crew.Complete, Program.done, finish, asks, spawned, started]
end

/-! ## One turn -/

section

variable {path : Path} {self : Settings} {m : Message} {d : Nat} {s t : Life} {a : Turn}
  {q : String}

/-- The attempt that the listener reads off the message. -/
def Life.attempt (m : Message) (s : Life) : Int :=
  retryAttemptFromHeaders (headersOf (withDeaths m.properties s.deaths))

/-- What a failed handling does to a message. -/
def Life.failed (self : Settings) (m : Message) (hops : List (String × String)) (s : Life) : Life :=
  match self.config.poisonQueue (s.attempt m) with
  | some q => { s with
      place := .acked
      handed := s.handed + 1
      published := s.published ++ [(q, m.body)] }
  | none => { s with
      handed := s.handed + 1
      deaths := if self.config.onError = .deadLetter then s.deadLettered hops else s.deaths }

theorem handed_failed (s : Life) (hops : List (String × String)) :
    (s.failed self m hops).handed = s.handed + 1 := by
  unfold Life.failed
  split <;> rfl

/-- What a path with dead-lettering asks for after a callback that raised. -/
theorem settlement_of_raised (hp : path ≠ .internal) {x : Raised}
    (hx : path = .async → x = .exception) (dl : Delivery) :
    settlement path self dl (.error x) (.ok ()) = match dl.poisonQueue self with
      | none => [rejection dl self.config]
      | some q => [.publish "" q dl.body, .ack dl.channel dl.deliveryTag] := by
  have hcfg : self.config.poisonQueue (retryAttemptFromHeaders (headersOf dl.properties)) =
      dl.poisonQueue self := rfl
  cases path with
  | internal => exact absurd rfl hp
  | offload => cases hq : dl.poisonQueue self <;> simp [settlement, failSettlement, hcfg, hq]
  | async =>
    obtain rfl := hx rfl
    cases hq : dl.poisonQueue self <;> simp [settlement, taskSettlement, hcfg, hq]

/-- **A turn** does what the settings say about the attempt of the message. -/
theorem step_of_fails (hp : path ≠ .internal) (hauto : self.autoAck = false)
    (hs : s.place = .ready) (ha : Fails path self m d s a) :
    s.step a = some (s.failed self m a.hops) := by
  obtain ⟨⟨x, hx, hh⟩, -⟩ := ha
  have hact := actions_of_complete hauto hh.reach hh.complete hh.finished
  rw [settlement_of_raised hp hx] at hact
  have hcfg : (s.delivery m a).poisonQueue self = self.config.poisonQueue (s.attempt m) := rfl
  simp only [Life.step, hs, hact, hcfg, callbacks_of_handled hh, Life.failed]
  cases hq : self.config.poisonQueue (s.attempt m) with
  | some q => simp [Life.obey, Life.delivery]
  | none =>
    cases ho : self.config.onError <;>
      simp [Life.obey, rejection, Life.delivery, Life.deadLettered, ho]

/-- A message that is ready can be delivered and handled. -/
theorem exists_fails (m : Message) (s : Life) (hp : path ≠ .internal)
    (hauto : self.autoAck = false) (hops : List (String × String)) (hd : hops.length = d) :
    ∃ a, Fails path self m d s a ∧ a.hops = hops := by
  let a : Turn := ⟨0, 1, failing path self ⟨0, 1, withDeaths m.properties s.deaths, m.body⟩, hops⟩
  exact ⟨a, ⟨⟨.exception, fun _ => rfl, failing_handled hp hauto⟩, hd⟩, rfl⟩

/-- The next turn of a message that is ready. -/
theorem exists_turn (hp : path ≠ .internal) (hauto : self.autoAck = false)
    (hs : s.place = .ready) (hops : List (String × String)) (hd : hops.length = d) :
    life.Move (Fails path self m d) s (s.failed self m hops) := by
  obtain ⟨a, ha, rfl⟩ := exists_fails m s hp hauto hops hd
  exact ⟨a, ha, step_of_fails hp hauto hs ha⟩

/-- What is known of the state after a step. -/
theorem failed_of_step (hp : path ≠ .internal) (hauto : self.autoAck = false)
    (ha : Fails path self m d s a) (h : life.step s a = some t) :
    s.place = .ready ∧ t = s.failed self m a.hops := by
  have hs : s.place = .ready := by
    cases hpl : s.place with
    | ready => rfl
    | unacked | acked => exact absurd h (by simp [life, Life.step, hpl])
  exact ⟨hs, (Option.some.inj ((step_of_fails hp hauto hs ha).symm.trans h)).symm⟩

/-! ## Retries through the dead-letter exchange -/

/-- After how many handlings a message counts `n` attempts, if each counts for
`d` but the first. -/
def rounds (n d : Nat) : Nat := 1 + (n - 1) ⌈/⌉ d

theorem rounds_le_iff {n d j : Nat} (hd : 1 ≤ d) : rounds n d ≤ j + 1 ↔ n ≤ 1 + j * d := by
  have h := ceilDiv_le_iff_le_mul (b := n - 1) (c := j) (Nat.lt_of_lt_of_le Nat.zero_lt_one hd)
  rw [rounds, Nat.add_comm 1, Nat.add_le_add_iff_right, h, Nat.mul_comm d]
  omega

/-- The handlings are as many as the attempts that are allowed if a cycle counts
once, or if two attempts are allowed at most. -/
theorem rounds_eq_iff {n d : Nat} (hn : 1 ≤ n) (hd : 1 ≤ d) :
    rounds n d = n ↔ d = 1 ∨ n ≤ 2 := by
  obtain rfl | ⟨j, rfl⟩ : n = 1 ∨ ∃ j, n = j + 2 := by
    rcases n with _ | _ | j
    · omega
    · exact .inl rfl
    · exact .inr ⟨j, rfl⟩
  · have hone : rounds 1 d ≤ 0 + 1 := (rounds_le_iff hd).mpr (by omega)
    have : 1 ≤ rounds 1 d := Nat.le_add_right 1 _
    omega
  · have hle : rounds (j + 2) d ≤ (j + 1) + 1 ↔ j + 2 ≤ 1 + (j + 1) * d := rounds_le_iff hd
    have hlt : rounds (j + 2) d ≤ j + 1 ↔ j + 2 ≤ 1 + j * d := rounds_le_iff hd
    have hmul : j + 1 ≤ (j + 1) * d := Nat.le_mul_of_pos_right (j + 1) hd
    have hone : d = 1 → j * d = j := fun h => by rw [h, Nat.mul_one]
    have htwo : 2 ≤ d → j * 2 ≤ j * d := fun h => Nat.mul_le_mul_left j h
    have hzero : j = 0 → j * d = 0 := fun h => by rw [h, Nat.zero_mul]
    omega

/-- The message is on its way, or has been given up. -/
inductive Retried (self : Settings) (m : Message) (d : Nat) (q : String) (s : Life) : Prop
  | ready (place : s.place = .ready) (count : (s.deaths.map (·.count)).sum = s.handed * d)
      (before : s.handed < rounds self.config.maxRetries.toNat d) (published : s.published = [])
  | acked (place : s.place = .acked) (handed : s.handed = rounds self.config.maxRetries.toNat d)
      (published : s.published = [(q, m.body)])

theorem retried_failed (ho : self.config.onError = .deadLetter)
    (hq : self.config.deadLetterQueue = some q) (hne : q ≠ "") (hm : m.Fresh) (hd : 1 ≤ d)
    {hops : List (String × String)} (hlen : hops.length = d) (hs : s.place = .ready)
    (h : Retried self m d q s) : Retried self m d q (s.failed self m hops) := by
  obtain ⟨-, hcount, hbefore, hpub⟩ | ⟨hpl, -, -⟩ := h
  swap
  · exact absurd hs (by simp [hpl])
  have hattempt : s.attempt m = 1 + ((s.handed * d : Nat) : Int) := by
    rw [Life.attempt, attempt_withDeaths hm, hcount]
  have hpos := self.config.one_le_maxRetries
  have hrounds := rounds_le_iff (n := self.config.maxRetries.toNat) (j := s.handed) hd
  rw [Life.failed]
  by_cases hp : self.config.maxRetries ≤ s.attempt m
  · have hpoison : self.config.poisonQueue (s.attempt m) = some q :=
      DeadLetteringConfig.poisonQueue_eq_some.mpr ⟨hq, hne, hp⟩
    rw [hpoison]
    refine .acked rfl ?_ (by simp [hpub])
    show s.handed + 1 = _
    omega
  · rw [DeadLetteringConfig.poisonQueue_eq_none (Int.not_le.mp hp)]
    refine .ready hs ?_ ?_ hpub
    · simp only [ho, if_true, sum_deadLettered, hlen, hcount, Nat.add_mul, Nat.one_mul]
    · show s.handed + 1 < _
      omega

/-- **With `on_error` `"dead_letter"` a message is retried until it is poison.**
Until then it is ready, has been published nowhere and has one more turn; then
it has been handled `rounds n d` times, published to the dead-letter queue and
acked.  That is the `n` of `max_retries` exactly when a cycle counts one
dead-lettering, or `n` is at most 2. -/
theorem retried_until_poison (hp : path ≠ .internal) (hauto : self.autoAck = false)
    (ho : self.config.onError = .deadLetter) (hq : self.config.deadLetterQueue = some q)
    (hne : q ≠ "") (hm : m.Fresh) (hd : 1 ≤ d) (hs : life.Reach (Fails path self m d) s) :
    ((s.place = .ready ∧ s.handed < rounds self.config.maxRetries.toNat d ∧ s.published = [] ∧
        ∃ t, life.Move (Fails path self m d) s t ∧ t.handed = s.handed + 1) ∨
      (s.place = .acked ∧ s.handed = rounds self.config.maxRetries.toNat d ∧
        s.published = [(q, m.body)])) ∧
    (rounds self.config.maxRetries.toNat d = self.config.maxRetries.toNat ↔
      d = 1 ∨ self.config.maxRetries ≤ 2) := by
  have hpos := self.config.one_le_maxRetries
  refine ⟨?_, (rounds_eq_iff (by omega) hd).trans (by omega)⟩
  have hret : Retried self m d q s := by
    refine Machine.Path.invariant hs (.ready rfl (by simp [life, Life.initial]) ?_ rfl) ?_
    · exact Nat.lt_of_lt_of_le Nat.zero_lt_one (Nat.le_add_right 1 _)
    · intro s a t ha h ht
      obtain ⟨hpl, rfl⟩ := failed_of_step hp hauto ha ht
      exact retried_failed ho hq hne hm hd ha.hops hpl h
  obtain ⟨hpl, -, hbefore, hpub⟩ | ⟨hpl, hhanded, hpub⟩ := hret
  · refine .inl ⟨hpl, hbefore, hpub, _,
      exists_turn hp hauto hpl (List.replicate d ("", "")) (by simp), ?_⟩
    exact handed_failed _ _
  · exact .inr ⟨hpl, hhanded, hpub⟩

/-- Settings with the dead-letter queue `dlq`. -/
def retrySettings (onError : String) (maxRetries : Int) : Settings where
  destination := [("queue_arguments", .dict "" [("on_error", .str onError),
    ("dead_letter_queue", .str "dlq"), ("max_retries", .int maxRetries)])]
  autoAck := false

def greeting : Message := ⟨none, [104, 105]⟩

/-- A rejected message waits in a retry queue until its time to live is over. -/
def retryHops : List (String × String) := [("work", "rejected"), ("work.retry", "expired")]

/-- Three attempts are allowed; the message has been handled twice. -/
def afterTwo : Life :=
  (Life.initial.failed (retrySettings "dead_letter" 3) greeting retryHops).failed
    (retrySettings "dead_letter" 3) greeting retryHops

theorem afterTwo_reach (hp : path ≠ .internal) :
    life.Reach (Fails path (retrySettings "dead_letter" 3) greeting 2) afterTwo := by
  have hfirst : life.Move (Fails path (retrySettings "dead_letter" 3) greeting 2) Life.initial
      (Life.initial.failed (retrySettings "dead_letter" 3) greeting retryHops) :=
    exists_turn hp rfl rfl retryHops rfl
  have hsecond : life.Move (Fails path (retrySettings "dead_letter" 3) greeting 2)
      (Life.initial.failed (retrySettings "dead_letter" 3) greeting retryHops) afterTwo :=
    exists_turn hp rfl (by decide +kernel) retryHops rfl
  obtain ⟨a, ha, h⟩ := hfirst
  obtain ⟨b, hb, g⟩ := hsecond
  exact (Machine.Reach.init.snoc ha h).snoc hb g

theorem retried_until_poison_two :
    ((afterTwo.place = .ready ∧
        afterTwo.handed < rounds (retrySettings "dead_letter" 3).config.maxRetries.toNat 2 ∧
        afterTwo.published = [] ∧
        ∃ t, life.Move (Fails .offload (retrySettings "dead_letter" 3) greeting 2) afterTwo t ∧
          t.handed = afterTwo.handed + 1) ∨
      (afterTwo.place = .acked ∧
        afterTwo.handed = rounds (retrySettings "dead_letter" 3).config.maxRetries.toNat 2 ∧
        afterTwo.published = [("dlq", greeting.body)])) ∧
    (rounds (retrySettings "dead_letter" 3).config.maxRetries.toNat 2 =
        (retrySettings "dead_letter" 3).config.maxRetries.toNat ↔
      2 = 1 ∨ (retrySettings "dead_letter" 3).config.maxRetries ≤ 2) :=
  retried_until_poison (by simp) rfl (by decide +kernel) (by decide +kernel) (by decide) rfl
    (by decide) (afterTwo_reach (by simp))

/-- Where a cycle counts two dead-letterings, a message that may be attempted
three times is given up after two.  On the async path an exception that is no
`Exception` leaves it unsettled. -/
theorem given_up_early :
    (retrySettings "dead_letter" 3).config.maxRetries = 3 ∧ greeting.Fresh ∧
    (∃ s, life.Reach (Fails .offload (retrySettings "dead_letter" 3) greeting 2) s ∧
      s.place = .acked ∧ s.handed = 2) ∧
    (∃ s, life.Reach (Fails .async (retrySettings "dead_letter" 3) greeting 2) s ∧
      s.place = .acked ∧ s.handed = 2) ∧
    ∃ s, Handled .async (retrySettings "dead_letter" 3) ⟨0, 1, none, greeting.body⟩
      (.error .baseException) s ∧ actions s.trace = [] :=
  ⟨by decide +kernel, rfl,
    ⟨afterTwo, afterTwo_reach (by simp), by decide +kernel, by decide +kernel⟩,
    ⟨afterTwo, afterTwo_reach (by simp), by decide +kernel, by decide +kernel⟩,
    uncaught_unsettled _ _⟩

/-! ## Retries by requeueing -/

/-- A message that is not poison as it was published is never poison when it is
requeued. -/
theorem failed_requeued (ho : self.config.onError = .requeue)
    (hlt : retryAttemptFromHeaders (headersOf m.properties) < self.config.maxRetries) (k : Nat)
    (hops : List (String × String)) :
    Life.failed self m hops ⟨.ready, [], k, []⟩ = ⟨.ready, [], k + 1, []⟩ := by
  have hattempt : Life.attempt m ⟨.ready, [], k, []⟩ =
      retryAttemptFromHeaders (headersOf m.properties) := rfl
  rw [Life.failed, hattempt, DeadLetteringConfig.poisonQueue_eq_none hlt]
  simp [ho]

/-- It is handled any number of times. -/
theorem requeued_path (hp : path ≠ .internal) (hauto : self.autoAck = false)
    (ho : self.config.onError = .requeue)
    (hlt : retryAttemptFromHeaders (headersOf m.properties) < self.config.maxRetries) (j k : Nat) :
    life.Path (Fails path self m d) ⟨.ready, [], j, []⟩ ⟨.ready, [], j + k, []⟩ := by
  induction k with
  | zero => exact Machine.Path.refl _
  | succ k ih =>
    obtain ⟨a, ha, ht⟩ := exists_turn (m := m) (d := d) (s := ⟨.ready, [], j + k, []⟩) hp hauto rfl
      (List.replicate d ("", "")) (by simp)
    rw [failed_requeued ho hlt] at ht
    exact ih.snoc ha ht

/-- **With `on_error` `"requeue"` a message keeps its attempt count.**  If that
reaches `max_retries` the message is handled once, published to the dead-letter
queue and acked.  If not, it is never published and is handled any number of
times. -/
theorem requeued_or_poison (hp : path ≠ .internal) (hauto : self.autoAck = false)
    (ho : self.config.onError = .requeue) (hq : self.config.deadLetterQueue = some q)
    (hne : q ≠ "") (hs : life.Reach (Fails path self m d) s) :
    (self.config.maxRetries ≤ retryAttemptFromHeaders (headersOf m.properties) →
      (s.place = .ready ∧ s.handed = 0 ∧ s.published = [] ∧
        ∃ t, life.Move (Fails path self m d) s t ∧ t.handed = 1) ∨
      (s.place = .acked ∧ s.handed = 1 ∧ s.published = [(q, m.body)])) ∧
    (retryAttemptFromHeaders (headersOf m.properties) < self.config.maxRetries →
      s.place = .ready ∧ s.published = [] ∧
        ∀ k, ∃ t, life.Path (Fails path self m d) s t ∧ t.handed = s.handed + k) := by
  constructor
  · intro hpoison
    have hfailed : ∀ hops, Life.initial.failed self m hops = ⟨.acked, [], 1, [(q, m.body)]⟩ := by
      intro hops
      have hattempt : Life.initial.attempt m =
          retryAttemptFromHeaders (headersOf m.properties) := rfl
      rw [Life.failed, hattempt, DeadLetteringConfig.poisonQueue_eq_some.mpr ⟨hq, hne, hpoison⟩]
      rfl
    obtain rfl | rfl : s = Life.initial ∨ s = ⟨.acked, [], 1, [(q, m.body)]⟩ := by
      refine Machine.Path.invariant
        (P := fun s => s = Life.initial ∨ s = ⟨.acked, [], 1, [(q, m.body)]⟩) hs (.inl rfl) ?_
      intro s a t ha h ht
      obtain ⟨hpl, rfl⟩ := failed_of_step hp hauto ha ht
      rcases h with rfl | rfl
      · exact .inr (hfailed _)
      · cases hpl
    · refine .inl ⟨rfl, rfl, rfl, _,
        exists_turn hp hauto rfl (List.replicate d ("", "")) (by simp), ?_⟩
      rw [hfailed]
    · exact .inr ⟨rfl, rfl, rfl⟩
  · intro hlt
    obtain ⟨j, rfl⟩ : ∃ j, s = ⟨.ready, [], j, []⟩ := by
      refine Machine.Path.invariant (P := fun s => ∃ j, s = ⟨.ready, [], j, []⟩) hs ⟨0, rfl⟩ ?_
      rintro s a t ha ⟨j, rfl⟩ ht
      obtain ⟨-, rfl⟩ := failed_of_step hp hauto ha ht
      exact ⟨j + 1, failed_requeued ho hlt j _⟩
    exact ⟨rfl, rfl, fun k => ⟨_, requeued_path hp hauto ho hlt j k, rfl⟩⟩

/-- Two attempts are allowed; the message has been requeued three times. -/
def afterThree : Life := ⟨.ready, [], 3, []⟩

theorem afterThree_reach (hp : path ≠ .internal) :
    life.Reach (Fails path (retrySettings "requeue" 2) greeting 1) afterThree :=
  requeued_path hp rfl (by decide +kernel) (by decide +kernel) 0 3

theorem requeued_or_poison_three :
    ((retrySettings "requeue" 2).config.maxRetries ≤
        retryAttemptFromHeaders (headersOf greeting.properties) →
      (afterThree.place = .ready ∧ afterThree.handed = 0 ∧ afterThree.published = [] ∧
        ∃ t, life.Move (Fails .async (retrySettings "requeue" 2) greeting 1) afterThree t ∧
          t.handed = 1) ∨
      (afterThree.place = .acked ∧ afterThree.handed = 1 ∧
        afterThree.published = [("dlq", greeting.body)])) ∧
    (retryAttemptFromHeaders (headersOf greeting.properties) <
        (retrySettings "requeue" 2).config.maxRetries →
      afterThree.place = .ready ∧ afterThree.published = [] ∧
        ∀ k, ∃ t, life.Path (Fails .async (retrySettings "requeue" 2) greeting 1) afterThree t ∧
          t.handed = afterThree.handed + k) :=
  requeued_or_poison (by simp) rfl (by decide +kernel) (by decide +kernel) (by decide)
    (afterThree_reach (by simp))

/-- A message that may be attempted twice is handled a third time, and has not
been published. -/
theorem requeued_for_ever :
    (retrySettings "requeue" 2).config.maxRetries = 2 ∧
    (∃ s, life.Reach (Fails .offload (retrySettings "requeue" 2) greeting 1) s ∧ s.handed = 3 ∧
      s.place = .ready ∧ s.published = []) ∧
    ∃ s, life.Reach (Fails .async (retrySettings "requeue" 2) greeting 1) s ∧ s.handed = 3 ∧
      s.place = .ready ∧ s.published = [] :=
  ⟨by decide +kernel, ⟨afterThree, afterThree_reach (by simp), rfl, rfl, rfl⟩,
    ⟨afterThree, afterThree_reach (by simp), rfl, rfl, rfl⟩⟩

end

end MqAdapters
