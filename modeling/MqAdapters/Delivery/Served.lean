import MqAdapters.Delivery.Redelivery
import MqAdapters.Delivery.Wire
import MqAdapters.Theory.Served

/-!
# What a listener makes of its queue

A listener is a host of `Theory.Served` if it runs the crew of `Delivery.Paths` for each
delivery.  What `Lawful`, `wireRules` and `wrote_once` say of every crew then says what
becomes of the messages, in every run of the listener and its broker.

* `reason_of_gone`, `place_of_message`: no message is lost.
* `cause_of_return`: a message goes back for a cause.
* `settlesOnce`: the listener settles each delivery once at most.
-/

namespace MqAdapters

open Python Theory Code

def Message.delivery (m : Message) (x : Dispatch) : Delivery :=
  ⟨x.channel, x.tag, m.properties, m.body⟩

theorem Message.key_delivery (m : Message) (x : Dispatch) :
    ((m.delivery x).channel, (m.delivery x).deliveryTag) = (x.channel, x.tag) :=
  rfl

/-- What a publish hands to the broker. -/
structure Publication where
  exchange : String
  routingKey : String
  body : Bytes
  properties : Option BasicProperties

/-- What a call does at the broker, and whether it succeeded.  aio-pika waits for the
confirm of what it publishes, pika does not. -/
def effect : Call → Option (Effect Publication × Bool)
  | ⟨.basicAck ch deliveryTag, r⟩ => some (.send ch (.ack deliveryTag), r.isOk)
  | ⟨.basicNack ch deliveryTag requeue, r⟩ => some (.send ch (.nack deliveryTag requeue), r.isOk)
  | ⟨.basicPublish ch exchange routingKey body properties, r⟩ =>
    some (.send ch (.publish ⟨exchange, routingKey, body, properties⟩), r.isOk)
  | ⟨.defaultExchangePublish routingKey body properties, r⟩ =>
    some (.accept ⟨"", routingKey, body, some properties⟩, r.isOk)
  | _ => none

/-- A listener, what it has said, and the broker. -/
abbrev Listening (σ : Type) := Served σ Delivery Message Publication Op Op.Ans

/-- A listener that takes deliveries. -/
abbrev Serving (σ α : Type) := Host σ α Delivery Message Publication Op Op.Ans Raised Job

/-- The listener runs the crews of the path. -/
structure Serves {σ α : Type} (path : Path) (settings : Settings) (H : Serving σ α) : Prop where
  code : H.code = fun d l => l.code settings d
  spawn : H.spawn = started
  root : H.root = path.job
  delivery : H.delivery = Message.delivery
  key : H.key = fun d => (d.channel, d.deliveryTag)
  effect : H.effect = effect

section

variable {σ : Type}

def CallbackReturned (path : Path) (s : Listening σ) (d : Delivery) : Prop :=
  ∃ e, (d, e) ∈ s.log ∧ finish path e = some (.ok ())

def CallbackRaised (path : Path) (s : Listening σ) (d : Delivery) : Prop :=
  ∃ e exc, (d, e) ∈ s.log ∧ finish path e = some (.error exc)

/-- An ack of the delivery has raised, and its nack may go out on top of it. -/
def AckRaised (s : Listening σ) (d : Delivery) : Prop :=
  (d, ⟨.basicAck d.channel d.deliveryTag, .error .exception⟩) ∈ s.log

/-- The delivery was published to its dead-letter queue. -/
def DeadLettered (path : Path) (self : Settings) (s : Listening σ) (d : Delivery) : Prop :=
  ∃ q, d.poisonQueue self = some q ∧ ⟨"", q, d.body, path.deadLetter d⟩ ∈ s.broker.published

/-- Why a message is gone. -/
def Reason (path : Path) (self : Settings) (s : Listening σ) (d : Delivery) : Fate → Prop
  | .acked => CallbackReturned path s d ∨
      CallbackRaised path s d ∧ DeadLettered path self s d
  | .rejected => self.config.onError = .deadLetter ∧ match path with
    | .async => CallbackRaised path s d ∨ AckRaised s d
    | _ => CallbackRaised path s d ∧ d.poisonQueue self = none
  | .auto => self.autoAck = true

/-- The message is ready, or unsettled on an open channel, or gone for a reason. -/
def Placed (path : Path) (self : Settings) (s : Listening σ) (n : Nat) (m : Message) : Prop :=
  n ∈ s.broker.ready ∨
    (∃ x ∈ s.broker.unsettled, x.message = n ∧ x.channel ∉ s.broker.closed) ∨
    ∃ x fate, (x, fate) ∈ s.broker.gone ∧ x.message = n ∧ Reason path self s (m.delivery x) fate

end

/-! ## What a frame needs -/

theorem eq_basicAck {e : Call} {ch tag : Nat} {ok : Bool}
    (h : effect e = some (.send ch (.ack tag), ok)) :
    ∃ r, e = ⟨.basicAck ch tag, r⟩ ∧ ok = r.isOk := by
  obtain ⟨o, r⟩ := e
  cases o <;> cases h
  exact ⟨r, rfl, rfl⟩

theorem eq_basicNack {e : Call} {ch tag : Nat} {requeue ok : Bool}
    (h : effect e = some (.send ch (.nack tag requeue), ok)) :
    ∃ r, e = ⟨.basicNack ch tag requeue, r⟩ ∧ ok = r.isOk := by
  obtain ⟨o, r⟩ := e
  cases o <;> cases h
  exact ⟨r, rfl, rfl⟩

section

variable {σ α : Type} {path : Path} {self : Settings} {H : Serving σ α} {window : Option Nat}
  {s : Listening σ} {c : Listening σ → Served.Action α Message → Prop} {d : Delivery}
  {x : Dispatch}

theorem Serves.reach (hH : Serves path self H) {w : Handling}
    (h : (crew (H.code d) H.spawn H.root).Reach (answers fun _ => True) w) :
    (deliveryCrew path self d).Reach (answers anyAnswer) w := by
  rw [hH.code, hH.spawn, hH.root] at h
  exact h

theorem callbackReturned_of_past {past : List Call} (hpast : ∀ e ∈ past, (d, e) ∈ s.log)
    (h : Completed path past) : CallbackReturned path s d := by
  obtain ⟨e, he, hf⟩ := h
  exact ⟨e, hpast e he, hf⟩

theorem callbackRaised_of_past {past : List Call} (hpast : ∀ e ∈ past, (d, e) ∈ s.log)
    (h : Failed path past) : CallbackRaised path s d := by
  obtain ⟨e, he, exc, hf⟩ := h
  exact ⟨e, exc, hpast e he, hf⟩

theorem ackRaised_of_past {past : List Call} (hpast : ∀ e ∈ past, (d, e) ∈ s.log)
    (h : Ended past (.ack d.channel d.deliveryTag) (.error .exception)) : AckRaised s d := by
  obtain ⟨⟨o, r⟩, he, hbroker⟩ := h
  cases o <;> cases hbroker
  exact hpast _ he

/-- A publish to the dead-letter queue that succeeded before the frame has arrived. -/
theorem deadLettered_of_past {handling : Handling} {past rest : List Call} {e : Call}
    (hreach : (deliveryCrew path self d).Reach (answers anyAnswer) handling)
    (htrace : handling.trace = past ++ e :: rest)
    (hpublished : ∀ e' ∈ past, ∀ y, effect e' = some (.send d.channel (.publish y), true) ∨
      effect e' = some (.accept y, true) → y ∈ s.broker.published)
    {q : String} (hq : d.poisonQueue self = some q)
    (hended : Ended past (.publish "" q d.body) (.ok ())) : DeadLettered path self s d := by
  obtain ⟨⟨o, r⟩, he, hbroker⟩ := hended
  obtain ⟨l, l', hl⟩ := List.append_of_mem he
  obtain ⟨_, -, hguard⟩ := wire_of_trace hreach (p := l) (e := ⟨o, r⟩) (q := l' ++ e :: rest)
    (by rw [htrace, hl]; simp)
  cases o
  case basicPublish ch exchange routingKey body properties =>
    obtain ⟨ha, rfl⟩ := Prod.mk.inj (Option.some.inj hbroker)
    obtain ⟨rfl, rfl, rfl⟩ := BrokerAction.publish.inj ha
    obtain ⟨hp, rfl, rfl⟩ := hguard
    refine ⟨_, hq, hpublished _ he _ (.inl ?_)⟩
    cases path with
    | async => exact absurd rfl hp
    | internal | offload => rfl
  case defaultExchangePublish routingKey body properties =>
    obtain ⟨ha, rfl⟩ := Prod.mk.inj (Option.some.inj hbroker)
    obtain ⟨-, rfl, rfl⟩ := BrokerAction.publish.inj ha
    obtain ⟨rfl, rfl⟩ := hguard
    exact ⟨_, hq, hpublished _ he _ (.inr rfl)⟩
  all_goals cases hbroker

/-! ## What is gone -/

/-- The delivery that a frame about the dispatch was sent for. -/
theorem delivery_of_frame (hH : Serves path self H) (h : (H.served self.autoAck window).Reach c s)
    {e : Call} (hlog : (d, e) ∈ s.log) (hx : x ∈ s.broker.dispatched) (hch : x.channel = d.channel)
    (htag : x.tag = d.deliveryTag) :
    ∃ m, s.broker.messages[x.message]? = some m ∧ d = m.delivery x := by
  obtain ⟨m, hm, hd⟩ := Host.eq_delivery (Host.sound_of_reach h)
    ((Host.tied_of_reach h).logged _ hlog) hx (by rw [hH.key, hch, htag])
  rw [hH.delivery] at hd
  exact ⟨m, hm, hd⟩

theorem of_acked (hH : Serves path self H) (h : (H.served self.autoAck window).Reach c s)
    (hx : (x, Fate.acked) ∈ s.broker.gone) : ∃ m, s.broker.messages[x.message]? = some m ∧
      Reason path self s (m.delivery x) .acked := by
  have hs := Host.sound_of_reach h
  obtain ⟨d, e, ok, w, past, rest, hlog, heffect, hreach, htrace, hpast, hpublished⟩ :=
    Host.exists_cause h (hs.acked x hx)
  rw [hH.effect] at heffect hpublished
  obtain ⟨r, rfl, -⟩ := eq_basicAck heffect
  have hreach := hH.reach hreach
  obtain ⟨hch, htag, hlaw⟩ := lawful_of_trace hreach htrace (a := .ack x.channel x.tag) rfl
  obtain ⟨m, hm, rfl⟩ := delivery_of_frame hH h hlog (hs.dispatched_of_gone hx) hch htag
  refine ⟨m, hm, hlaw.imp (callbackReturned_of_past hpast) ?_⟩
  rintro ⟨hfailed, q, hq, hended⟩
  exact ⟨callbackRaised_of_past hpast hfailed,
    deadLettered_of_past hreach htrace hpublished hq hended⟩

theorem of_rejected (hH : Serves path self H) (h : (H.served self.autoAck window).Reach c s)
    (hx : (x, Fate.rejected) ∈ s.broker.gone) : ∃ m, s.broker.messages[x.message]? = some m ∧
      Reason path self s (m.delivery x) .rejected := by
  have hs := Host.sound_of_reach h
  obtain ⟨d, e, ok, w, past, rest, hlog, heffect, hreach, htrace, hpast, -⟩ :=
    Host.exists_cause h (hs.rejected x hx)
  rw [hH.effect] at heffect
  obtain ⟨r, rfl, -⟩ := eq_basicNack heffect
  have hreach := hH.reach hreach
  obtain ⟨hch, htag, hlaw⟩ :=
    lawful_of_trace hreach htrace (a := .nack x.channel x.tag false) rfl
  obtain ⟨m, hm, rfl⟩ := delivery_of_frame hH h hlog (hs.dispatched_of_gone hx) hch htag
  obtain ⟨past', hsub, -, hguard⟩ := wire_of_trace hreach htrace
  obtain ⟨honError, hsync⟩ := hguard rfl
  refine ⟨m, hm, honError, ?_⟩
  have hraised : path ≠ .async →
      CallbackRaised path s (m.delivery x) ∧ (m.delivery x).poisonQueue self = none := fun hp =>
    (hsync hp).imp_left fun hfailed => callbackRaised_of_past hpast (hfailed.mono hsub)
  cases path with
  | async =>
    refine hlaw.imp (callbackRaised_of_past hpast) ?_
    rintro ⟨-, hended⟩
    exact ackRaised_of_past hpast (hch ▸ htag ▸ hended)
  | internal => exact hraised (by decide)
  | offload => exact hraised (by decide)

theorem reason_of_gone (hH : Serves path self H) (h : (H.served self.autoAck window).Reach c s)
    {fate : Fate} (hx : (x, fate) ∈ s.broker.gone) {m : Message}
    (hm : s.broker.messages[x.message]? = some m) : Reason path self s (m.delivery x) fate := by
  cases fate with
  | acked =>
    obtain ⟨m', hm', hr⟩ := of_acked hH h hx
    obtain rfl := Option.some.inj (hm.symm.trans hm')
    exact hr
  | rejected =>
    obtain ⟨m', hm', hr⟩ := of_rejected hH h hx
    obtain rfl := Option.some.inj (hm.symm.trans hm')
    exact hr
  | auto => exact Broker.auto_of_reach (Host.broker_of_reach h) hx

/-- **No message is lost.** -/
theorem place_of_message (hH : Serves path self H) (h : (H.served self.autoAck window).Reach c s)
    {n : Nat} {m : Message} (hm : s.broker.messages[n]? = some m) : Placed path self s n m := by
  have hs := Host.sound_of_reach h
  have hplace := hs.place (List.getElem?_eq_some_iff.mp hm).1
  by_cases hready : n ∈ s.broker.ready
  · exact .inl hready
  by_cases hunsettled : 0 < s.broker.unsettled.countP (·.message == n)
  · obtain ⟨x, hx, heq⟩ := List.countP_pos_iff.mp hunsettled
    exact .inr (.inl ⟨x, hx, beq_iff_eq.mp heq, hs.unsettled x hx⟩)
  · rw [List.count_eq_zero.mpr hready] at hplace
    have hgone : 0 < s.broker.gone.countP (·.1.message == n) := by omega
    obtain ⟨⟨x, fate⟩, hx, heq⟩ := List.countP_pos_iff.mp hgone
    obtain rfl : x.message = n := beq_iff_eq.mp heq
    exact .inr (.inr ⟨x, fate, hx, rfl, reason_of_gone hH h hx hm⟩)

/-! ## What comes back -/

/-- **A message goes back for a cause.** -/
theorem cause_of_return (hH : Serves path self H) (h : (H.served self.autoAck window).Reach c s)
    {m : Message} (hm : s.broker.messages[x.message]? = some m) (hx : x ∈ s.broker.returned) :
    x.channel ∈ s.broker.closed ∨ CallbackRaised path s (m.delivery x) ∨
      AckRaised s (m.delivery x) := by
  have hs := Host.sound_of_reach h
  refine (hs.returned x hx).imp_right fun hdone => ?_
  obtain ⟨d, e, ok, w, past, rest, hlog, heffect, hreach, htrace, hpast, -⟩ :=
    Host.exists_cause h hdone
  rw [hH.effect] at heffect
  obtain ⟨r, rfl, -⟩ := eq_basicNack heffect
  have hreach := hH.reach hreach
  obtain ⟨hch, htag, hlaw⟩ :=
    lawful_of_trace hreach htrace (a := .nack x.channel x.tag true) rfl
  obtain ⟨m', hm', rfl⟩ := delivery_of_frame hH h hlog (hs.dispatched_of_returned hx) hch htag
  obtain rfl := Option.some.inj (hm.symm.trans hm')
  refine hlaw.imp (callbackRaised_of_past hpast) ?_
  rintro ⟨-, hended⟩
  exact ackRaised_of_past hpast (hch ▸ htag ▸ hended)

/-! ## Settled once -/

/-- What settles is an ack or a nack that succeeded, on that channel. -/
theorem settlesAt_spec (hH : Serves path self H) {ch tag : Nat} {e : Call}
    (h : H.settlesAt ch tag e = true) :
    wroteCost e = 1 ∧ ∃ a, asks e.op = some a ∧
      (a = .ack ch tag ∨ ∃ requeue, a = .nack ch tag requeue) := by
  obtain ⟨⟨k, f⟩, hwrote, hsettles⟩ := (Option.any_eq_true _ _).mp h
  obtain ⟨rfl, htag⟩ := Broker.settles_iff.mp hsettles
  have heffect := Host.sentBy_iff.mp hwrote
  rw [hH.effect] at heffect
  dsimp only at htag
  cases f with
  | ack tag' =>
    obtain rfl := Option.some.inj htag
    obtain ⟨r, rfl, hr⟩ := eq_basicAck heffect
    cases r with
    | ok u => exact ⟨rfl, _, rfl, .inl rfl⟩
    | error exc => cases hr
  | nack tag' requeue =>
    obtain rfl := Option.some.inj htag
    obtain ⟨r, rfl, hr⟩ := eq_basicNack heffect
    cases r with
    | ok u => exact ⟨rfl, _, rfl, .inr ⟨requeue, rfl⟩⟩
    | error exc => cases hr
  | publish y => cases htag

theorem countP_settlesAt_le (hH : Serves path self H) (ch tag : Nat) (l : List Call) :
    l.countP (H.settlesAt ch tag) ≤ (l.map wroteCost).sum := by
  induction l with
  | nil => exact Nat.le_refl 0
  | cons e l ih =>
    rw [List.countP_cons, List.map_cons, List.sum_cons]
    split
    · next h =>
      have := (settlesAt_spec hH h).1
      omega
    · omega

/-- **The listener settles each delivery once at most**, and never with `auto_ack`. -/
theorem Serves.settlesOnce (hH : Serves path self H) : H.SettlesOnce self.autoAck where
  once d w hw ch tag :=
    (countP_settlesAt_le hH ch tag w.trace).trans (wrote_once (hH.reach hw))
  own d w hw e he ch tag h := by
    have hreach := hH.reach hw
    obtain ⟨past, rest, htrace⟩ := List.append_of_mem he
    obtain ⟨_, -, hguard⟩ := wire_of_trace hreach htrace
    obtain ⟨-, a, ha, hsettles⟩ := settlesAt_spec hH h
    rw [hH.key]
    rcases hsettles with rfl | ⟨requeue, rfl⟩
    · obtain ⟨hch, htag, -⟩ := lawful_of_trace hreach htrace ha
      obtain ⟨o, r⟩ := e
      cases o <;> cases ha
      exact ⟨by rw [hch, htag], hguard⟩
    · obtain ⟨hch, htag, -⟩ := lawful_of_trace hreach htrace ha
      obtain ⟨o, r⟩ := e
      cases o <;> cases ha
      exact ⟨by rw [hch, htag], hguard.1⟩

/-! ## Delivered once -/

/-- **A message is delivered once** in a steady run, unless one of its deliveries failed. -/
theorem dispatched_le_one (hH : Serves path self H)
    (h : (H.served self.autoAck window).Reach (fun _ a => a.steady = true) s) {n : Nat}
    {m : Message} (hm : s.broker.messages[n]? = some m)
    (hraised : ∀ x ∈ s.broker.dispatched, x.message = n →
      ¬ CallbackRaised path s (m.delivery x) ∧ ¬ AckRaised s (m.delivery x)) :
    s.broker.dispatched.countP (·.message == n) ≤ 1 := by
  have hs := Host.sound_of_reach h
  have hnone : s.broker.returned.countP (·.message == n) = 0 := by
    refine List.countP_eq_zero.mpr fun x hx heq => ?_
    obtain rfl : x.message = n := beq_iff_eq.mp heq
    obtain ⟨hcallback, hack⟩ := hraised x (hs.dispatched_of_returned hx) rfl
    rcases cause_of_return hH h hm hx with hclosed | hr
    · rw [Host.closed_of_steady hH.settlesOnce h] at hclosed
      cases hclosed
    · exact hr.elim hcallback hack
  have htrips := hs.redelivered (List.getElem?_eq_some_iff.mp hm).1
  omega

/-- The call is a callback or an ack that raised. -/
def raises (path : Path) (e : Call) : Bool :=
  match finish path e with
  | some (.error _) => true
  | _ => match e with
    | ⟨.basicAck _ _, r⟩ => !r.isOk
    | _ => false

theorem not_raised (h : (s.log.any fun x => raises path x.2) = false) (d : Delivery) :
    ¬ CallbackRaised path s d ∧ ¬ AckRaised s d := by
  rw [List.any_eq_false] at h
  refine ⟨?_, fun hack => h _ hack rfl⟩
  rintro ⟨e, exc, he, hf⟩
  exact h _ he (by simp [raises, hf])

end

end MqAdapters
