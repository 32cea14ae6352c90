import MqAdapters.AsyncListener.Served
import MqAdapters.AsyncSender.Direct

/-!
# From send to callback

An `AsyncSender` in front of the queue that a listener consumes, with the broker
between them.  A publish is on its way for any time before the broker takes it in; with
publisher confirms its future succeeds only after that.
-/

namespace MqAdapters

open Python Theory

/-- The sender, and the listener with its broker. -/
structure AsyncPipeline (σ : Type) where
  sender : AsyncSender
  /-- the publishes that the broker has taken in, each with the message that the queue got -/
  received : List (Nat × Option Nat)
  listening : Listening σ

namespace AsyncPipeline

variable {σ α : Type}

inductive Action (α : Type)
  | send (a : AsyncSender.Action)
  /-- the broker takes in the publish of the future -/
  | reach (f : Nat)
  | serve (a : Served.Action α Message)

/-- The message of a publish; `properties` is what aio-pika sends along with a body. -/
def message (properties : BasicProperties) (p : AsyncSender.Publish) : Message :=
  ⟨some properties, p.body⟩

variable (self : AsyncSender.Config) (H : Serving σ α) (auto : Bool) (window : Option Nat)
  (properties : BasicProperties) (routed : AsyncSender.Publish → Bool)

/-- The broker confirms only what it has taken in. -/
def allows (s : AsyncPipeline σ) : AsyncSender.Action → Bool
  | .settle f true => !self.confirmDelivery || (s.received.map Prod.fst).contains f
  | _ => true

def reach (s : AsyncPipeline σ) (f : Nat) : Option (AsyncPipeline σ) :=
  (s.sender.confirms.items[f]?).bind fun x =>
    if (s.received.map Prod.fst).contains f then none
    else if routed x.owner then
      let broker := s.listening.broker
      some { s with
        received := s.received ++ [(f, some broker.messages.length)]
        listening := { s.listening with broker := broker.put (message properties x.owner) } }
    else some { s with received := s.received ++ [(f, none)] }

def step (s : AsyncPipeline σ) : Action α → Option (AsyncPipeline σ)
  | .send a =>
    if s.allows self a then (s.sender.step self a).map fun t => { s with sender := t } else none
  | .reach f => s.reach properties routed f
  | .serve a => (H.step auto window s.listening a).map fun t => { s with listening := t }

def machine : Machine (AsyncPipeline σ) (Action α) where
  init := ⟨AsyncSender.initial, [], (H.served auto window).init⟩
  step := step self H auto window properties routed

variable {self H auto window properties routed} {s t : AsyncPipeline σ}

/-! ## One step -/

theorem step_cases {a : Action α} (ht : s.step self H auto window properties routed a = some t) :
    (∃ b p, a = .send b ∧ s.allows self b = true ∧ s.sender.step self b = some p ∧
      t = { s with sender := p }) ∨
    (∃ f x, s.sender.confirms.items[f]? = some x ∧ f ∉ s.received.map Prod.fst ∧
      (routed x.owner = true ∧ t = { s with
          received := s.received ++ [(f, some s.listening.broker.messages.length)]
          listening := { s.listening with
            broker := s.listening.broker.put (message properties x.owner) } } ∨
        routed x.owner = false ∧ t = { s with received := s.received ++ [(f, none)] })) ∨
    ∃ b l, H.step auto window s.listening b = some l ∧ t = { s with listening := l } := by
  cases a with
  | send b =>
    simp only [step] at ht
    split at ht
    · next hallows =>
      obtain ⟨p, hp, rfl⟩ := Option.map_eq_some_iff.mp ht
      exact .inl ⟨b, p, rfl, hallows, hp, rfl⟩
    · cases ht
  | reach f =>
    obtain ⟨x, hx, ht⟩ := Option.bind_eq_some_iff.mp ht
    split at ht
    · cases ht
    · next hnew =>
      refine .inr (.inl ⟨f, x, hx, by simpa using hnew, ?_⟩)
      split at ht <;> cases ht
      · next hrouted => exact .inl ⟨hrouted, rfl⟩
      · next hrouted => exact .inr ⟨by simpa using hrouted, rfl⟩
  | serve b =>
    obtain ⟨l, hl, rfl⟩ := Option.map_eq_some_iff.mp ht
    exact .inr (.inr ⟨b, l, hl, rfl⟩)

variable {c : AsyncPipeline σ → Action α → Prop}

/-- The sender's part of a run is a run of the sender. -/
theorem sender_of_reach (h : (machine self H auto window properties routed).Reach c s) :
    (AsyncSender.machine self).Reach Machine.anyStep s.sender := by
  refine Machine.Path.invariant
    (P := fun s : AsyncPipeline σ => (AsyncSender.machine self).Reach Machine.anyStep s.sender) h
    Machine.Reach.init ?_
  intro s a t _ hs ht
  rcases step_cases ht with ⟨b, p, -, -, hp, rfl⟩ | ⟨f, x, -, -, ⟨-, rfl⟩ | ⟨-, rfl⟩⟩ |
    ⟨b, l, -, rfl⟩
  · exact hs.snoc (a := b) trivial hp
  · exact hs
  · exact hs
  · exact hs

/-- The listener's part is a run of the listener with its broker. -/
theorem listening_of_reach (h : (machine self H auto window properties routed).Reach c s) :
    (H.served auto window).Reach Machine.anyStep s.listening := by
  refine Machine.Path.invariant
    (P := fun s : AsyncPipeline σ => (H.served auto window).Reach Machine.anyStep s.listening) h
    Machine.Reach.init ?_
  intro s a t _ hs ht
  rcases step_cases ht with ⟨b, p, -, -, -, rfl⟩ | ⟨f, x, -, -, ⟨-, rfl⟩ | ⟨-, rfl⟩⟩ |
    ⟨b, l, hl, rfl⟩
  · exact hs
  · exact hs.snoc (a := .put (message properties x.owner)) trivial rfl
  · exact hs
  · exact hs.snoc (a := b) trivial hl

/-! ## What became of the publishes -/

/-- The publishes that were taken in and their messages, and those that must be. -/
structure Linked (config : AsyncSender.Config) (properties : BasicProperties)
    (routed : AsyncSender.Publish → Bool) (s : AsyncPipeline σ) : Prop where
  arrived : ∀ f n, (f, some n) ∈ s.received → ∃ x, s.sender.confirms.items[f]? = some x ∧
    s.listening.broker.messages[n]? = some (message properties x.owner)
  unrouted : ∀ f, (f, none) ∈ s.received → ∃ x, s.sender.confirms.items[f]? = some x ∧
    routed x.owner = false
  once : (s.received.map Prod.fst).Nodup
  apart : (s.received.filterMap Prod.snd).Nodup
  confirmed : config.confirmDelivery = true → ∀ f, s.sender.confirms.outcome f = .succeeded →
    f ∈ s.received.map Prod.fst

/-- The sender goes on. -/
theorem Linked.send (h : Linked self properties routed s) {a : AsyncSender.Action}
    {p : AsyncSender} (hallows : s.allows self a = true) (hp : s.sender.step self a = some p) :
    Linked self properties routed { s with sender := p } := by
  have hfutures := AsyncSender.step_futures hp
  refine ⟨?_, ?_, h.once, h.apart, ?_⟩
  · intro f n hf
    obtain ⟨x, hx, hmessage⟩ := h.arrived f n hf
    obtain ⟨y, hy, hown, -⟩ := hfutures.grows f x hx
    exact ⟨y, hy, hown ▸ hmessage⟩
  · intro f hf
    obtain ⟨x, hx, hrouted⟩ := h.unrouted f hf
    obtain ⟨y, hy, hown, -⟩ := hfutures.grows f x hx
    exact ⟨y, hy, hown ▸ hrouted⟩
  · intro hconfirm f hf
    rcases hfutures.succeeded hf with hs | rfl
    · exact h.confirmed hconfirm f hs
    · simpa [allows, hconfirm] using hallows

/-- The messages so far are below the next one. -/
theorem Linked.lt (h : Linked self properties routed s) {n : Nat}
    (hn : n ∈ s.received.filterMap Prod.snd) : n < s.listening.broker.messages.length := by
  obtain ⟨⟨f, m⟩, hf, hm⟩ := List.mem_filterMap.mp hn
  obtain rfl : m = some n := hm
  obtain ⟨x, -, hmessage⟩ := h.arrived f n hf
  exact (List.getElem?_eq_some_iff.mp hmessage).1

/-- The broker takes in a publish. -/
theorem Linked.reach (h : Linked self properties routed s) {f : Nat}
    {x : Item AsyncSender.Publish} (hx : s.sender.confirms.items[f]? = some x)
    (hf : f ∉ s.received.map Prod.fst) {place : Option Nat} {l : Listening σ}
    (hplace : ∀ n, place = some n → n = s.listening.broker.messages.length ∧
      l.broker.messages[n]? = some (message properties x.owner))
    (hnone : place = none → routed x.owner = false)
    (hmessages : s.listening.broker.messages <+: l.broker.messages) :
    Linked self properties routed
      { s with received := s.received ++ [(f, place)], listening := l } := by
  refine ⟨?_, ?_, ?_, ?_, ?_⟩
  · intro g n hg
    rcases List.mem_append.mp hg with hg | hg
    · obtain ⟨y, hy, hmessage⟩ := h.arrived g n hg
      obtain ⟨hlt, heq⟩ := List.getElem?_eq_some_iff.mp hmessage
      exact ⟨y, hy, heq ▸ List.prefix_iff_getElem?.mp hmessages n hlt⟩
    · obtain ⟨rfl, hn⟩ := Prod.mk.inj (List.mem_singleton.mp hg)
      exact ⟨x, hx, (hplace n hn.symm).2⟩
  · intro g hg
    rcases List.mem_append.mp hg with hg | hg
    · exact h.unrouted g hg
    · obtain ⟨rfl, hn⟩ := Prod.mk.inj (List.mem_singleton.mp hg)
      exact ⟨x, hx, hnone hn.symm⟩
  · rw [List.map_append]
    exact List.Nodup.append h.once (List.nodup_singleton _) (List.disjoint_singleton.mpr hf)
  · rw [List.filterMap_append]
    cases place with
    | none => simpa using h.apart
    | some n =>
      obtain ⟨rfl, -⟩ := hplace n rfl
      exact List.Nodup.append h.apart (List.nodup_singleton _)
        (List.disjoint_singleton.mpr fun hn => absurd (h.lt hn) (Nat.lt_irrefl _))
  · intro hconfirm g hg
    rw [List.map_append]
    exact List.mem_append_left _ (h.confirmed hconfirm g hg)

theorem linked_of_reach (h : (machine self H auto window properties routed).Reach c s) :
    Linked self properties routed s := by
  refine Machine.Path.invariant (P := Linked self properties routed) h ?_ ?_
  · refine ⟨?_, ?_, List.nodup_nil, List.nodup_nil, ?_⟩
    · intro f n hf
      cases hf
    · intro f hf
      cases hf
    · intro _ f hf
      cases hf
  · intro s a t _ ih ht
    rcases step_cases ht with ⟨b, p, -, hallows, hp, rfl⟩ |
      ⟨f, x, hx, hf, ⟨hrouted, rfl⟩ | ⟨hrouted, rfl⟩⟩ | ⟨b, l, hl, rfl⟩
    · exact ih.send hallows hp
    · refine ih.reach hx hf ?_ (by simp) (List.prefix_append _ _)
      rintro n ⟨⟩
      exact ⟨rfl, List.getElem?_concat_length⟩
    · exact ih.reach hx hf (by simp) (fun _ => hrouted) (List.prefix_refl _)
    · refine ⟨?_, ih.unrouted, ih.once, ih.apart, ih.confirmed⟩
      intro f n hf
      obtain ⟨x, hx, hmessage⟩ := ih.arrived f n hf
      obtain ⟨hlt, heq⟩ := List.getElem?_eq_some_iff.mp hmessage
      exact ⟨x, hx, heq ▸ List.prefix_iff_getElem?.mp (Host.messages_step hl) n hlt⟩

/-- **Nothing is lost from send to callback**, with publisher confirms and without batches.
For every `send` that has returned, the broker has taken in a publish of its body; and if
that is bound to the queue, it has its own message there, which is ready, unsettled on an
open channel, or gone because a callback returned or its failure was dealt with.  There is
another publish of it only after one that failed, and one message at most for each. -/
theorem handled_of_returned {path : Path} {settings : Settings} (hH : Serves path settings H)
    (hconfirm : self.confirmDelivery = true) (hbatched : self.batched = false)
    (h : (machine self H settings.autoAck window properties routed).Reach c s) {i : Nat}
    {call : AsyncSender.SendCall} (hcall : s.sender.sends[i]? = some call)
    (hreturned : call.pc = .returned) :
    (∃ (f exchange : Nat) (x : Item AsyncSender.Publish),
      s.sender.confirms.items[f]? = some x ∧ x.owner = call.publish self i exchange ∧
      (routed x.owner = false ∨ ∃ n, (f, some n) ∈ s.received ∧
        s.listening.broker.messages[n]? = some (message properties x.owner) ∧
        Placed path settings s.listening n (message properties x.owner))) ∧
    (∀ f g, f < g → s.sender.confirms.Owned f (AsyncSender.message i) →
      s.sender.confirms.Owned g (AsyncSender.message i) →
      ∃ e < g, s.sender.confirms.Owned e (AsyncSender.message i) ∧
        s.sender.confirms.outcome e = .failed) ∧
    (s.received.map Prod.fst).Nodup ∧ (s.received.filterMap Prod.snd).Nodup := by
  have hsender := sender_of_reach h
  have hlinked := linked_of_reach h
  refine ⟨?_, (AsyncSender.unbatched_of_reach hbatched hsender).2.2.repeats i, hlinked.once,
    hlinked.apart⟩
  obtain ⟨f, ⟨x, hx, hown⟩, hsucceeded⟩ :=
    AsyncSender.confirmed_of_returned hbatched hsender hcall hreturned
  obtain ⟨j, call', exchange, hj, hp⟩ := AsyncSender.carries_of_reach hsender f x hx
  obtain rfl : i = j := by
    rw [← show x.owner.send = i from hown, hp]
    rfl
  obtain rfl : call = call' := Option.some.inj (hcall.symm.trans hj)
  refine ⟨f, exchange, x, hx, hp, ?_⟩
  obtain ⟨⟨g, place⟩, hg, rfl⟩ := List.mem_map.mp (hlinked.confirmed hconfirm f hsucceeded)
  cases place with
  | none =>
    obtain ⟨y, hy, hrouted⟩ := hlinked.unrouted g hg
    obtain rfl : x = y := Option.some.inj (hx.symm.trans hy)
    exact .inl hrouted
  | some n =>
    obtain ⟨y, hy, hmessage⟩ := hlinked.arrived g n hg
    obtain rfl : x = y := Option.some.inj (hx.symm.trans hy)
    exact .inr ⟨n, hg, hmessage, place_of_message hH (listening_of_reach h) hmessage⟩

/-! ## A run -/

/-- Publisher confirms, without batches. -/
def confirming : AsyncSender.Config := { AsyncSender.plain with confirmDelivery := true }

def unset : BasicProperties :=
  ⟨.none, .none, none, .none, .none, .none, .none, .none, .none, .none, .none, .none, .none, .none⟩

/-- All publishes are bound to the queue. -/
abbrev awaited : Machine (AsyncPipeline AsyncListener) (Action AsyncListener.Action) :=
  machine confirming (AsyncListener.host AsyncListener.acking)
    AsyncListener.acking.settings.autoAck (some 1) unset fun _ => true

/-- `send` connects and publishes, and returns once the broker has confirmed. -/
def sending : List (Action AsyncListener.Action) :=
  [.send (.callSend [104] none), .send (.send 0 false 0), .send (.send 0 false 0),
    .send (.send 0 false 0), .send (.send 0 false 0), .reach 0, .send (.settle 0 true),
    .send (.send 0 false 0)]

/-- The handler of the message ends. -/
def handling : List (Served.Action AsyncListener.Action Message) :=
  (AsyncListener.startAll 0).map (.act · false) ++ [.dispatch 0 0, .receive 0] ++
    List.replicate 4 (.act (.handle 0 (answering (.ok .value) (.ok ()) (.ok ()))) false) ++
    [.process 0]

def sentAndHandled : AsyncPipeline AsyncListener :=
  (awaited.runIn (fun _ _ => true) awaited.init (sending ++ handling.map .serve)).getD awaited.init

theorem sentAndHandled_reach : awaited.Reach (fun _ _ => true = true) sentAndHandled :=
  Machine.path_of_isSome (by decide +kernel) awaited.init

theorem handled_of_returned_acked :
    sentAndHandled.listening.broker.gone.map (·.2) = [.acked] ∧
      (∃ (f exchange : Nat) (x : Item AsyncSender.Publish),
        sentAndHandled.sender.confirms.items[f]? = some x ∧
        x.owner = AsyncSender.SendCall.publish confirming 0 exchange ⟨[104], none, .returned⟩ ∧
        (true = false ∨ ∃ n, (f, some n) ∈ sentAndHandled.received ∧
          sentAndHandled.listening.broker.messages[n]? = some (message unset x.owner) ∧
          Placed .async AsyncListener.acking.settings sentAndHandled.listening n
            (message unset x.owner))) :=
  ⟨by decide +kernel, (handled_of_returned (AsyncListener.host_serves AsyncListener.acking) rfl rfl
    sentAndHandled_reach
    (show sentAndHandled.sender.sends[0]? = some ⟨[104], none, .returned⟩ by decide +kernel)
    rfl).1⟩

end AsyncPipeline

end MqAdapters
