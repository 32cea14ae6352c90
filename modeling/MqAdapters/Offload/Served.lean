import MqAdapters.Delivery.Served
import MqAdapters.Offload.Hosting

/-!
# The sync listener and its broker

The listener of `Offload.Model` as a host, in front of a queue.  The listener and the broker
lose channels at different times, so each may take a channel for open that the other has
closed.  A call on a channel that is open for the listener and that does not raise is on
the wire; one that raises there may be on the wire or not.
-/

namespace MqAdapters

open Python Theory Code

namespace Offload

/-- The effect reaches the connection. -/
def reaches (s : Offload) : Effect Publication → Bool
  | .send ch _ => s.loop.channelOpen ch
  | .accept _ => true

/-- What a call does in the state; `anyway` says whether one that raises does it. -/
def does (s : Offload) (anyway : Bool) (e : Call) : Option (Effect Publication) :=
  (effect e).bind fun (w, ok) => if (ok || anyway) && s.reaches w then some w else none

/-- The step takes no delivery. -/
def own : Action → Bool
  | .deliver _ => false
  | _ => true

/-- A consumer is registered on the channel. -/
def consumes (s : Offload) (ch : Nat) : Bool :=
  (s.loop.channels[ch]?).any fun c => 0 < c.consumers

variable {self : Config} {window : Option Nat} {s : Offload}

/-- A call that is made is one that the state answers. -/
theorem made_call {a : Action} {x : Delivery × Call} (h : s.made self a = some x) :
    ∃ thread answers o p, s.call self thread x.1 answers o = some p ∧ x.2 = ⟨o, p.2⟩ := by
  cases a with
  | runTask answers =>
    obtain ⟨task, -, h⟩ := Option.bind_eq_some_iff.mp h
    split at h
    · obtain ⟨p, hp, rfl⟩ := Option.map_eq_some_iff.mp h
      exact ⟨.io, answers, _, p, hp, rfl⟩
    · cases h
    · cases h
  | work i answers =>
    obtain ⟨w, -, h⟩ := Option.bind_eq_some_iff.mp h
    split at h
    · split at h
      · cases h
      · obtain ⟨p, hp, rfl⟩ := Option.map_eq_some_iff.mp h
        exact ⟨s.threadOf i, answers, _, p, hp, rfl⟩
    · cases h
    · cases h
  | _ => cases h

/-- A call on a channel that does not raise found it open. -/
theorem reaches_of_call {thread : Thread} {d : Delivery} {answers : ∀ o : Op, o.Ans} {o : Op}
    {p : Offload × o.Ans} {w : Effect Publication} (h : s.call self thread d answers o = some p)
    (hw : effect ⟨o, p.2⟩ = some (w, true)) : s.reaches w = true := by
  by_contra hclosed
  cases o
  case basicAck | basicNack | basicPublish =>
    cases h
    simp only [effect, onChannel, Option.some.injEq, Prod.mk.injEq] at hw
    obtain ⟨rfl, hok⟩ := hw
    rw [if_neg (show ¬ s.loop.channelOpen _ = true from hclosed)] at hok
    cases hok
  case defaultExchangePublish =>
    obtain ⟨rfl, -⟩ := Prod.mk.inj (Option.some.inj hw)
    exact hclosed rfl
  all_goals cases hw

variable (self) in
/-- The listener takes the deliveries of a broker. -/
def host : Serving Offload Action where
  machine := machine self
  deliver := .deliver
  own := own
  told := told self
  live := live
  code d l := l.code self.listener.toSettings d
  spawn := started
  root := self.path.job
  left := Over
  delivery := Message.delivery
  key d := (d.channel, d.deliveryTag)
  effect := effect
  does := does
  consumes := consumes
  someAnswer := answering (.ok .value) (.ok ()) (.ok ())
  live_init := rfl
  change s a t _ _ ht := change_step ht
  told_deliver s d := rfl
  told_own s a d hown htold := by
    rw [told_of_made rfl (by rintro d rfl; cases hown)] at htold
    obtain ⟨x, -, hx⟩ := Option.map_eq_some_iff.mp htold
    cases hx
  key_delivery := Message.key_delivery
  does_of_ok s a d e w anyway htold hw := by
    have hmade : s.made self a = some (d, e) := by
      cases a
      case deliver d' => cases htold
      all_goals
        rw [told_of_made rfl (by simp)] at htold
        obtain ⟨x, hx, heq⟩ := Option.map_eq_some_iff.mp htold
        exact hx.trans (congrArg some (Sum.inr.inj heq))
    obtain ⟨thread, answers, o, p, hcall, rfl⟩ := made_call hmade
    simp [does, hw, reaches_of_call hcall hw]
  effect_of_does s anyway e w h := by
    obtain ⟨⟨v, ok⟩, hv, h⟩ := Option.bind_eq_some_iff.mp h
    dsimp only at h
    split at h <;> cases h
    next hdoes => exact ⟨ok, hv, (Bool.and_eq_true_iff.mp hdoes).1⟩

theorem host_serves (self : Config) : Serves self.path self.listener.toSettings (host self) :=
  ⟨rfl, rfl, rfl, rfl, rfl, rfl⟩

/-- The listener and its broker. -/
abbrev served (self : Config) (window : Option Nat) :
    Machine (Listening Offload) (Served.Action Action Message) :=
  (host self).served self.listener.autoAck window

section

variable {s t : Listening Offload} {c : Listening Offload → Served.Action Action Message → Prop}

/-- **No message is lost.**  Whatever is closed, raised, stopped or reconnected and however
both sides interleave, each message is still ready, or unsettled on an open channel, or it
is gone for a reason: its callback returned, or it raised and the message was published to
its dead-letter queue or rejected for the broker to dead-letter. -/
theorem at_least_once (h : (served self window).Reach c s) {n : Nat} {m : Message}
    (hm : s.broker.messages[n]? = some m) :
    n ∈ s.broker.ready ∨
      (∃ x ∈ s.broker.unsettled, x.message = n ∧ x.channel ∉ s.broker.closed) ∨
      ∃ x fate, (x, fate) ∈ s.broker.gone ∧ x.message = n ∧
        Reason self.path self.listener.toSettings s (m.delivery x) fate :=
  place_of_message (host_serves self) h hm

/-- A steady run from the start. -/
def playedOut (as : List (Served.Action Action Message)) : Listening Offload :=
  ((served poolConfig (some 2)).runIn (fun _ a => a.steady) (served poolConfig (some 2)).init
    as).getD (served poolConfig (some 2)).init

theorem playedOut_reach {as : List (Served.Action Action Message)}
    (h : ((served poolConfig (some 2)).runIn (fun _ a => a.steady)
      (served poolConfig (some 2)).init as).isSome = true) :
    (served poolConfig (some 2)).Reach (fun _ a => a.steady = true) (playedOut as) :=
  Machine.path_of_isSome h (served poolConfig (some 2)).init

/-- A message is put into the queue and taken by the listener, which hands it to a worker. -/
def takes : List (Served.Action Action Message) :=
  firstPump.map (.act · false) ++ [.put ⟨none, [104]⟩, .dispatch 0 0, .receive 0] ++
    List.replicate 5 (.act (.runTask (answering (.ok .value) (.ok ()) (.ok ()))) false)

/-- The callback ends as `r`, and what it schedules runs. -/
def callbackEnds (r : Except Raised Returned) : List (Served.Action Action Message) :=
  List.replicate (if r.isOk then 5 else 6) (.act (.work 0 (answering r (.ok ()) (.ok ()))) false) ++
    .act (.runScheduled 0) false ::
      List.replicate 2 (.act (.runTask (answering r (.ok ()) (.ok ()))) false)

/-- The callback returns, and the ack reaches the broker. -/
def acked : Listening Offload := playedOut (takes ++ callbackEnds (.ok .value) ++ [.process 0])

theorem at_least_once_acked :
    acked.broker.gone.map (·.2) = [.acked] ∧
      (0 ∈ acked.broker.ready ∨
        (∃ x ∈ acked.broker.unsettled, x.message = 0 ∧ x.channel ∉ acked.broker.closed) ∨
        ∃ x fate, (x, fate) ∈ acked.broker.gone ∧ x.message = 0 ∧
          Reason poolConfig.path poolConfig.listener.toSettings acked
            (Message.delivery ⟨none, [104]⟩ x) fate) :=
  ⟨by decide +kernel, at_least_once (playedOut_reach (by decide +kernel)) (by rfl)⟩

/-- **A message is delivered again only for a cause.**  It is dispatched once more than it
went back, as long as it is not ready; and it went back because a channel was closed, or
because the callback raised on that delivery, or its ack did. -/
theorem redelivered_for_cause (h : (served self window).Reach c s) {n : Nat} {m : Message}
    (hm : s.broker.messages[n]? = some m) :
    s.broker.dispatched.countP (·.message == n) + s.broker.ready.count n =
        s.broker.returned.countP (·.message == n) + 1 ∧
      ∀ x ∈ s.broker.returned, x.message = n → x.channel ∈ s.broker.closed ∨
        CallbackRaised self.path s (m.delivery x) ∨ AckRaised s (m.delivery x) := by
  refine ⟨(Host.sound_of_reach h).redelivered (List.getElem?_eq_some_iff.mp hm).1, ?_⟩
  rintro x hx rfl
  exact cause_of_return (host_serves self) h hm hx

/-- The callback raises, and the message is dispatched again. -/
def again : Listening Offload :=
  playedOut (takes ++ callbackEnds (.error .exception) ++ [.process 0, .dispatch 0 0])

theorem redelivered_for_cause_again :
    again.broker.returned.length = 1 ∧
      again.broker.dispatched.countP (·.message == 0) + again.broker.ready.count 0 =
        again.broker.returned.countP (·.message == 0) + 1 ∧
      ∀ x ∈ again.broker.returned, x.message = 0 → x.channel ∈ again.broker.closed ∨
        CallbackRaised poolConfig.path again (Message.delivery ⟨none, [104]⟩ x) ∨
          AckRaised again (Message.delivery ⟨none, [104]⟩ x) :=
  ⟨by decide +kernel, redelivered_for_cause (playedOut_reach (by decide +kernel)) (by rfl)⟩

/-- **No frame of the listener is refused**: in every run in which a call that raises writes
nothing, whatever is closed, stopped or reconnected, a frame that the broker processes
closes no channel. -/
theorem never_refused (h : (served self window).Reach (fun _ a => a.quiet = true) s) {ch : Nat}
    (ht : (served self window).step s (.process ch) = some t) :
    t.broker.closed = s.broker.closed :=
  Host.closed_of_served (a := .process ch) (host_serves self).settlesOnce h (by simp) ht

/-- The callback has returned, and its ack is on the wire. -/
def acking : Listening Offload := playedOut (takes ++ callbackEnds (.ok .value))

theorem acking_process :
    ((served poolConfig (some 2)).step acking (.process 0)).isSome = true := by
  decide +kernel

theorem never_refused_acking :
    acking.broker.wire.length = 1 ∧
      (((served poolConfig (some 2)).step acking (.process 0)).get acking_process).broker.closed =
        acking.broker.closed :=
  ⟨by decide +kernel, never_refused ((playedOut_reach (by decide +kernel)).mono
    fun _ _ => Served.quiet_of_steady) (Option.some_get acking_process).symm⟩

/-- **A message is delivered once**, when the broker keeps its channels and calls that raise
write nothing, unless the callback or the ack of one of its deliveries has raised. -/
theorem delivered_once (h : (served self window).Reach (fun _ a => a.steady = true) s) {n : Nat}
    {m : Message} (hm : s.broker.messages[n]? = some m)
    (hraised : ∀ x ∈ s.broker.dispatched, x.message = n →
      ¬ CallbackRaised self.path s (m.delivery x) ∧ ¬ AckRaised s (m.delivery x)) :
    s.broker.dispatched.countP (·.message == n) ≤ 1 :=
  dispatched_le_one (host_serves self) h hm hraised

theorem delivered_once_acked :
    acked.broker.gone.map (·.2) = [.acked] ∧
      acked.broker.dispatched.countP (·.message == 0) ≤ 1 :=
  ⟨by decide +kernel, delivered_once (m := ⟨none, [104]⟩) (playedOut_reach (by decide +kernel))
    (by rfl) fun _ _ _ => not_raised (by decide +kernel) _⟩

end

end Offload

end MqAdapters
