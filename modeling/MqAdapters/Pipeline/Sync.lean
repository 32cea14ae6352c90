import MqAdapters.PublishBackend.Counters
import MqAdapters.PublishBackend.Order
import MqAdapters.Offload.Served

/-!
# From publish to callback

A `SyncPublishBackend` in front of the queue that a listener consumes, with the broker
between them.  The channel of a publisher is in confirm mode once its
`confirm_delivery` has returned; a `basic_publish` that returns on it has been
confirmed, so what is bound to the queue is in it.  Any other `basic_publish` may reach the
broker or not, whether it raises or returns.
-/

namespace MqAdapters

open Python Theory

/-- What became of a request that was passed to `basic_publish`. -/
structure Handed where
  call : PublishBackend.PublishCall
  /-- the channel was in confirm mode -/
  confirmed : Bool
  /-- the message that the queue got for it -/
  message : Option Nat

/-- The publisher, its channels in confirm mode, and the listener with its broker; `handed`
is history. -/
structure Pipeline (σ : Type) where
  publisher : PublishBackend
  confirming : List PublishBackend.Channel
  listening : Listening σ
  handed : List Handed

namespace Pipeline

variable {σ α : Type}

inductive Action (α : Type)
  /-- a step of the publisher; a `basic_publish` that is not confirmed reaches the broker
  `anyway`, or does not -/
  | publish (a : PublishBackend.Action) (anyway : Bool)
  | serve (a : Served.Action α Message)

/-- The channel whose `confirm_delivery` returns in the step. -/
def confirmed (s : PublishBackend) : PublishBackend.Action → Option PublishBackend.Channel
  | .io false _ => s.thread.bind fun th =>
    match th.pc with
    | .confirm ch => some ch
    | _ => none
  | _ => none

/-- The message of a request, which is published without properties. -/
def message (r : PublishRequest) : Message where
  properties := some ⟨.none, .none, none, .none, .none, .none, .none, .none, .none, .none, .none,
    .none, .none, .none⟩
  body := r.body

/-- The queue gets a message for the call: it was confirmed, or reaches the broker `anyway`, and
the request is bound to the queue. -/
def puts (routed : PublishRequest → Bool) (s : Pipeline σ) (anyway : Bool)
    (call : PublishBackend.PublishCall) : Bool :=
  ((!call.raised && s.confirming.contains call.channel) || anyway) && routed call.request

/-- A `basic_publish` was made. -/
def hand (routed : PublishRequest → Bool) (s : Pipeline σ) (anyway : Bool)
    (call : PublishBackend.PublishCall) : Pipeline σ :=
  let confirmed := s.confirming.contains call.channel
  if s.puts routed anyway call then
    let broker := s.listening.broker
    { s with
      listening := { s.listening with broker := broker.put (message call.request) }
      handed := s.handed ++ [⟨call, confirmed, some broker.messages.length⟩] }
  else { s with handed := s.handed ++ [⟨call, confirmed, none⟩] }

variable (self : PublishBackend.Config) (H : Serving σ α) (auto : Bool) (window : Option Nat)
  (routed : PublishRequest → Bool)

def step (s : Pipeline σ) : Action α → Option (Pipeline σ)
  | .publish a anyway => (s.publisher.step self a).map fun t =>
    let s' := { s with
      publisher := t, confirming := s.confirming ++ (confirmed s.publisher a).toList }
    match t.passed[s.publisher.passed.length]? with
    | some call => s'.hand routed anyway call
    | none => s'
  | .serve a => (H.step auto window s.listening a).map fun t => { s with listening := t }

def machine : Machine (Pipeline σ) (Action α) where
  init := ⟨PublishBackend.initial, [], (H.served auto window).init, []⟩
  step := step self H auto window routed

variable {self H auto window routed} {s t : Pipeline σ}

/-! ## One step -/

/-- Whether the message is put into the queue. -/
theorem hand_cases (routed : PublishRequest → Bool) (s : Pipeline σ) (anyway : Bool)
    (call : PublishBackend.PublishCall) :
    (s.puts routed anyway call = true ∧ s.hand routed anyway call = { s with
      listening := { s.listening with
        broker := s.listening.broker.put (message call.request) }
      handed := s.handed ++
        [⟨call, s.confirming.contains call.channel, some s.listening.broker.messages.length⟩] }) ∨
    (s.puts routed anyway call = false ∧ s.hand routed anyway call = { s with
      handed := s.handed ++ [⟨call, s.confirming.contains call.channel, none⟩] }) := by
  unfold hand
  dsimp only
  split
  · next h => exact .inl ⟨h, rfl⟩
  · next h => exact .inr ⟨Bool.eq_false_iff.mpr h, rfl⟩

/-- The publisher makes one `basic_publish` at most. -/
theorem passed_one {p q : PublishBackend} {a : PublishBackend.Action}
    (hw : PublishBackend.Wellformed self p) (h : p.step self a = some q) :
    q.passed = p.passed ∨ ∃ call, q.passed = p.passed ++ [call] := by
  have hc := PublishBackend.step_cases h
  cases a with
  | io raises draw =>
    obtain ⟨th, hth, h⟩ := hc
    have hp := PublishBackend.passed_of_io (hw.pooled th hth) h
    split at hp
    · obtain ⟨ch, hp⟩ := hp
      exact .inr ⟨_, hp⟩
    · exact .inl hp
  | callStart => obtain ⟨-, ⟨-, rfl⟩ | ⟨-, rfl⟩⟩ := hc <;> exact .inl rfl
  | start => obtain ⟨-, rfl⟩ | ⟨-, rfl⟩ := hc <;> exact .inl rfl
  | stop i =>
    obtain ⟨_, _, _, rfl⟩ := PublishBackend.exists_stop h
    exact .inl rfl
  | publish i => obtain ⟨r, -, rfl⟩ := hc; exact .inl rfl
  | tick dt => obtain ⟨-, rfl⟩ := hc; exact .inl rfl
  | callStop | callPublish | lose => obtain rfl : q = _ := hc; exact .inl rfl

theorem step_cases {a : Action α} (hw : PublishBackend.Wellformed self s.publisher)
    (ht : s.step self H auto window routed a = some t) :
    (∃ b anyway p, a = .publish b anyway ∧ s.publisher.step self b = some p ∧
      (p.passed = s.publisher.passed ∧ t = { s with
          publisher := p, confirming := s.confirming ++ (confirmed s.publisher b).toList } ∨
        ∃ call, p.passed = s.publisher.passed ++ [call] ∧ t = hand routed { s with
          publisher := p, confirming := s.confirming ++ (confirmed s.publisher b).toList }
          anyway call)) ∨
      ∃ b l, a = .serve b ∧ H.step auto window s.listening b = some l ∧
        t = { s with listening := l } := by
  cases a with
  | publish b anyway =>
    obtain ⟨p, hp, rfl⟩ := Option.map_eq_some_iff.mp ht
    refine .inl ⟨b, anyway, p, rfl, hp, ?_⟩
    dsimp only
    rcases passed_one hw hp with hsame | ⟨call, hcall⟩
    · rw [hsame, List.getElem?_eq_none (Nat.le_refl _)]
      exact .inl ⟨rfl, rfl⟩
    · rw [hcall, List.getElem?_concat_length]
      exact .inr ⟨call, rfl, rfl⟩
  | serve b =>
    obtain ⟨l, hl, rfl⟩ := Option.map_eq_some_iff.mp ht
    exact .inr ⟨b, l, rfl, hl, rfl⟩

/-- Handing a call over leaves the publisher. -/
theorem hand_publisher (s : Pipeline σ) (anyway : Bool) (call : PublishBackend.PublishCall) :
    (s.hand routed anyway call).publisher = s.publisher := by
  rcases hand_cases routed s anyway call with ⟨-, h⟩ | ⟨-, h⟩ <;> rw [h]

variable {c : Pipeline σ → Action α → Prop}

/-- The publisher's part of a run is a run of the publisher. -/
theorem publisher_of_reach (h : (machine self H auto window routed).Reach c s) :
    (PublishBackend.machine self).Reach Machine.anyStep s.publisher := by
  refine Machine.Path.invariant
    (P := fun s : Pipeline σ => (PublishBackend.machine self).Reach Machine.anyStep s.publisher) h
    Machine.Reach.init ?_
  intro s a t _ hs ht
  rcases step_cases (PublishBackend.accounted_of_reach hs).1 ht with
    ⟨b, anyway, p, -, hp, ⟨-, rfl⟩ | ⟨call, -, rfl⟩⟩ | ⟨b, l, -, -, rfl⟩
  · exact hs.snoc (a := b) trivial hp
  · rw [hand_publisher]
    exact hs.snoc (a := b) trivial hp
  · exact hs

/-- The listener's part is a run of the listener with its broker. -/
theorem listening_of_reach (h : (machine self H auto window routed).Reach c s) :
    (H.served auto window).Reach Machine.anyStep s.listening := by
  refine Machine.Reach.invariant
    (P := fun s : Pipeline σ => (H.served auto window).Reach Machine.anyStep s.listening) h
    Machine.Reach.init ?_
  intro s a t hr _ hs ht
  rcases step_cases (PublishBackend.accounted_of_reach (publisher_of_reach hr)).1 ht with
    ⟨b, anyway, p, -, -, ⟨-, rfl⟩ | ⟨call, -, rfl⟩⟩ | ⟨b, l, -, hl, rfl⟩
  · exact hs
  · rcases hand_cases routed { s with publisher := p, confirming := _ } anyway call with
      ⟨-, hput⟩ | ⟨-, hsame⟩
    · rw [hput]
      exact hs.snoc (a := .put (message call.request)) trivial rfl
    · rw [hsame]
      exact hs
  · exact hs.snoc (a := b) trivial hl

/-! ## What became of the requests -/

/-- The calls, their messages, and those that must have one. -/
structure Linked (routed : PublishRequest → Bool) (s : Pipeline σ) : Prop where
  calls : s.handed.map (·.call) = s.publisher.passed
  arrived : ∀ e ∈ s.handed, ∀ n, e.message = some n →
    s.listening.broker.messages[n]? = some (message e.call.request)
  kept : ∀ e ∈ s.handed, e.call.raised = false → e.confirmed = true →
    routed e.call.request = true → e.message ≠ none
  ordered : (s.handed.filterMap (·.message)).Pairwise (· < ·)

/-- The messages so far are below the next one. -/
theorem Linked.lt (h : Linked routed s) {n : Nat} (hn : n ∈ s.handed.filterMap (·.message)) :
    n < s.listening.broker.messages.length := by
  obtain ⟨e, he, hmessage⟩ := List.mem_filterMap.mp hn
  exact (List.getElem?_eq_some_iff.mp (h.arrived e he n hmessage)).1

/-- A `basic_publish` is made. -/
theorem Linked.hand (h : Linked routed s) {p : PublishBackend}
    {channels : List PublishBackend.Channel} (anyway : Bool) {call : PublishBackend.PublishCall}
    (hcall : p.passed = s.publisher.passed ++ [call]) :
    Linked routed (Pipeline.hand routed { s with publisher := p, confirming := channels }
      anyway call) := by
  rcases hand_cases routed { s with publisher := p, confirming := channels } anyway
    call with ⟨hputs, hhand⟩ | ⟨hputs, hhand⟩
  · rw [hhand]
    refine ⟨?_, ?_, ?_, ?_⟩
    · rw [List.map_append, h.calls, hcall]
      rfl
    · intro e he n hn
      rcases List.mem_append.mp he with he | he
      · exact getElem?_concat_of_some (h.arrived e he n hn)
      · obtain rfl := List.mem_singleton.mp he
        obtain rfl := Option.some.inj hn
        exact List.getElem?_concat_length
    · intro e he hraised hconfirmed hrouted
      rcases List.mem_append.mp he with he | he
      · exact h.kept e he hraised hconfirmed hrouted
      · obtain rfl := List.mem_singleton.mp he
        exact Option.some_ne_none _
    · rw [List.filterMap_append, List.pairwise_append]
      refine ⟨h.ordered, List.pairwise_singleton _ _, ?_⟩
      intro n hn m hm
      obtain rfl : m = _ := List.mem_singleton.mp hm
      exact h.lt hn
  · rw [hhand]
    refine ⟨?_, ?_, ?_, ?_⟩
    · rw [List.map_append, h.calls, hcall]
      rfl
    · intro e he n hn
      rcases List.mem_append.mp he with he | he
      · exact h.arrived e he n hn
      · obtain rfl := List.mem_singleton.mp he
        cases hn
    · intro e he hraised hconfirmed hrouted
      rcases List.mem_append.mp he with he | he
      · exact h.kept e he hraised hconfirmed hrouted
      · -- a confirmed call of a bound request has a message
        obtain rfl := List.mem_singleton.mp he
        simp only at hraised hconfirmed hrouted
        simp [puts, hraised, hrouted] at hputs
        exact absurd (by simpa using hconfirmed) hputs.1
    · rw [List.filterMap_append]
      simpa using h.ordered

theorem linked_of_reach (h : (machine self H auto window routed).Reach c s) : Linked routed s := by
  refine Machine.Reach.invariant h ?_ ?_
  · exact ⟨rfl, fun _ he => absurd he List.not_mem_nil, fun _ he => absurd he List.not_mem_nil,
      List.Pairwise.nil⟩
  · intro s a t hr _ ih ht
    rcases step_cases (PublishBackend.accounted_of_reach (publisher_of_reach hr)).1 ht with
      ⟨b, anyway, p, -, -, ⟨hsame, rfl⟩ | ⟨call, hcall, rfl⟩⟩ | ⟨b, l, -, hl, rfl⟩
    · exact ⟨ih.calls.trans hsame.symm, ih.arrived, ih.kept, ih.ordered⟩
    · exact ih.hand anyway hcall
    · refine ⟨ih.calls, ?_, ih.kept, ih.ordered⟩
      intro e he n hn
      obtain ⟨hlt, hmessage⟩ := List.getElem?_eq_some_iff.mp (ih.arrived e he n hn)
      rw [← hmessage]
      exact List.prefix_iff_getElem?.mp (Host.messages_step hl) n hlt

/-- **Nothing is lost from publish to callback.**  Every request that `publish` accepted is
still in the queue of the publisher or in the hands of its thread, or it was passed to
`basic_publish`.  If that returned on a channel in confirm mode and the request is bound to
the queue, it has its own message there, in the order of the requests; and that is ready,
unsettled on an open channel, or gone because a callback returned or its failure was dealt
with. -/
theorem end_to_end {path : Path} {settings : Settings} (hH : Serves path settings H)
    (h : (machine self H settings.autoAck window routed).Reach c s) :
    (∀ i r, s.publisher.accepted[i]? = some r →
      (s.handed.length ≤ i ∧
        r ∈ s.publisher.phase.held ++ Consumer.items s.publisher.queue) ∨
      ∃ e, s.handed[i]? = some e ∧ e.call.request = r ∧
        (e.call.raised = true ∨ e.confirmed = false ∨ routed r = false ∨
          ∃ n, e.message = some n ∧ s.listening.broker.messages[n]? = some (message r) ∧
            Placed path settings s.listening n (message r))) ∧
    (s.handed.filterMap (·.message)).Pairwise (· < ·) := by
  have hlinked := linked_of_reach h
  refine ⟨?_, hlinked.ordered⟩
  intro i r hi
  have haccounted := (PublishBackend.accounted_of_reach (publisher_of_reach h)).2
  have haccepted : s.publisher.accepted = s.handed.map (·.call.request) ++
      (s.publisher.phase.held ++ Consumer.items s.publisher.queue) := by
    have hpassed : s.handed.map (·.call.request) = s.publisher.passed.map (·.request) := by
      rw [← hlinked.calls, List.map_map]
      rfl
    rw [hpassed, ← List.append_assoc]
    exact haccounted
  rw [haccepted] at hi
  by_cases hlt : i < s.handed.length
  · right
    rw [List.getElem?_append_left (by rw [List.length_map]; exact hlt), List.getElem?_map] at hi
    obtain ⟨e, he, rfl⟩ := Option.map_eq_some_iff.mp hi
    have hmem := List.mem_of_getElem? he
    refine ⟨e, he, rfl, ?_⟩
    by_cases hraised : e.call.raised = true
    · exact .inl hraised
    by_cases hconfirmed : e.confirmed = false
    · exact .inr (.inl hconfirmed)
    by_cases hrouted : routed e.call.request = false
    · exact .inr (.inr (.inl hrouted))
    obtain ⟨n, hn⟩ := Option.ne_none_iff_exists'.mp (hlinked.kept e hmem (by simpa using hraised)
      (by simpa using hconfirmed) (by simpa using hrouted))
    have hmessage := hlinked.arrived e hmem n hn
    exact .inr (.inr (.inr ⟨n, hn, hmessage,
      place_of_message hH (listening_of_reach h) hmessage⟩))
  · left
    rw [List.getElem?_append_right (by rw [List.length_map]; omega)] at hi
    exact ⟨by omega, List.mem_of_getElem? hi⟩

/-! ## A run -/

/-- A publisher with confirms and the sync listener; all requests are bound to the queue. -/
abbrev offloaded : Machine (Pipeline Offload) (Action Offload.Action) :=
  machine PublishBackend.confirmConfig (Offload.host Offload.poolConfig)
    Offload.poolConfig.listener.autoAck (some 2) fun _ => true

/-- A channel in confirm mode, and a request that is published on it. -/
def publishes : List PublishBackend.Action :=
  [.callStart, .start, .start] ++ List.replicate 6 (.io false 0) ++
    [.callPublish [104] none, .publish 0] ++ List.replicate 3 (.io false 0)

/-- The listener takes the message, its callback returns, and the ack reaches the broker. -/
def consumes : List (Served.Action Offload.Action Message) :=
  Offload.firstPump.map (.act · false) ++ [.dispatch 0 0, .receive 0] ++
    List.replicate 5
      (.act (.runTask (answering (.ok .value) (.ok ()) (.ok ()))) false) ++
    Offload.callbackEnds (.ok .value) ++ [.process 0]

def consumed : Pipeline Offload :=
  (offloaded.runIn (fun _ _ => true) offloaded.init
    (publishes.map (.publish · false) ++ consumes.map .serve)).getD offloaded.init

theorem consumed_reach : offloaded.Reach (fun _ _ => true = true) consumed :=
  Machine.path_of_isSome (by decide +kernel) offloaded.init

theorem end_to_end_consumed :
    consumed.listening.broker.gone.map (·.2) = [.acked] ∧
      ((consumed.handed.length ≤ 0 ∧ ⟨[104], "events", "all"⟩ ∈
          consumed.publisher.phase.held ++ Consumer.items consumed.publisher.queue) ∨
        ∃ e, consumed.handed[0]? = some e ∧ e.call.request = ⟨[104], "events", "all"⟩ ∧
          (e.call.raised = true ∨ e.confirmed = false ∨ true = false ∨
            ∃ n, e.message = some n ∧ consumed.listening.broker.messages[n]? =
                some (message ⟨[104], "events", "all"⟩) ∧
              Placed Offload.poolConfig.path Offload.poolConfig.listener.toSettings
                consumed.listening n (message ⟨[104], "events", "all"⟩))) :=
  ⟨by decide +kernel, (end_to_end (Offload.host_serves Offload.poolConfig) consumed_reach).1 0
    ⟨[104], "events", "all"⟩ (by decide +kernel)⟩

end Pipeline

end MqAdapters
