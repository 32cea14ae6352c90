import MqAdapters.AsyncListener.Model

/-!
# When `start` has set up a consumer

`start` looks at `self._conn` alone: with an open connection it returns at once.
That connection may be one that an earlier `start` has left half set up.

* `sequential`: `start` and `stop` are called one after the other.
* `unbroken`: `start` is not called with an open connection after a `start` that
  raised, or after the channel was closed alone.
* `start_consumes_iff`: in sequential and unbroken runs, a `start` that returns has
  a consumer registered exactly if its call is unbroken too.
-/

namespace MqAdapters

open Python Theory

namespace AsyncListener

variable {self : Config} {s t u : AsyncListener} {k : Nat} {raises : Bool}

/-! ## One call after the other -/

def Starting.ended : Starting → Bool
  | .going _ => false
  | .returned | .raised => true

/-- No call of `start` or `stop` is under way. -/
def quiet (s : AsyncListener) : Bool := s.starts.all Starting.ended && s.stops.all (· == .returned)

/-- `start` and `stop` are called one after the other. -/
def sequential (s : AsyncListener) : Action → Bool
  | .callStart | .callStop => s.quiet
  | _ => true

/-- A `start` that finds `self._conn` open is called neither after a `start` that
raised nor after `self._channel` was closed alone. -/
def unbroken (s : AsyncListener) : Action → Bool
  | .callStart => !s.connected || s.starts.getLast? != some .raised && s.channel.any s.channelOpen
  | _ => true

def connectionOf (s : AsyncListener) (k : Nat) : Option Nat := (s.channels[k]?).map (·.connection)

/-- A consumer is registered on an open channel of `self._conn`. -/
def Consuming (s : AsyncListener) : Prop :=
  ∃ k c, s.conn = some c ∧ s.connectionOf k = some c ∧ s.channelOpen k = true ∧
    ⟨k, true⟩ ∈ s.consumers

/-! ## What is set up -/

/-- No consumer was registered on a channel of `self._conn`. -/
def Bare (s : AsyncListener) : Prop :=
  ∀ x ∈ s.consumers, ∀ c, s.connectionOf x.channel = some c → s.conn ≠ some c

/-- `self._channel` is the channel `k` of `self._conn`. -/
structure OnChannel (s : AsyncListener) (k : Nat) : Prop where
  channel : s.channel = some k
  conn : ∃ c, s.connectionOf k = some c ∧ s.conn = some c

/-- The consumers of `self._conn` are all on the channel `k`, and one is registered. -/
structure Attached (s : AsyncListener) (k : Nat) : Prop extends s.OnChannel k where
  consumer : ⟨k, true⟩ ∈ s.consumers
  only : ∀ x ∈ s.consumers, ∀ c, s.connectionOf x.channel = some c → s.conn = some c → x.channel = k

/-- What a `start` under way has set up. -/
def Ready (s : AsyncListener) : StartPc → Prop
  | .factory => s.connected = false
  | .channel c => s.conn = some c ∧ s.Bare
  | .setQos k | .declareExchange k | .declareQueue k | .bind k | .consume k =>
    s.OnChannel k ∧ s.Bare

/-- What the last `start` has set up. -/
def Settled (s : AsyncListener) : Prop :=
  s.connected = true → match s.starts.getLast? with
    | some .returned => ∃ k, s.Attached k
    | some .raised => s.Bare
    | _ => False

theorem Settled.last (hs : s.Settled) (hc : s.connected = true) :
    (s.starts.getLast? = some .returned ∧ ∃ k, s.Attached k) ∨
    (s.starts.getLast? = some .raised ∧ s.Bare) := by
  have hs := hs hc
  cases hl : s.starts.getLast? with
  | none =>
    rw [hl] at hs
    exact absurd hs id
  | some starting =>
    rw [hl] at hs
    cases starting with
    | going pc => exact absurd hs id
    | returned => exact .inl ⟨rfl, hs⟩
    | raised => exact .inr ⟨rfl, hs⟩

/-- Channels are on connections that exist, and consumers on channels that exist. -/
structure Numbered (s : AsyncListener) : Prop where
  channels : ∀ k c, s.connectionOf k = some c → c < s.connections.length
  consumers : ∀ x ∈ s.consumers, x.channel < s.channels.length

/-- Nothing but the state of what exists has changed. -/
structure Kept (s t : AsyncListener) : Prop where
  starts : t.starts = s.starts
  stops : t.stops = s.stops
  connections : t.connections.length = s.connections.length
  channels : t.channels.length = s.channels.length
  connectionOf : ∀ k, t.connectionOf k = s.connectionOf k
  consumers : t.consumers.map (·.channel) = s.consumers.map (·.channel)

theorem Kept.refl (s : AsyncListener) : Kept s s := ⟨rfl, rfl, rfl, rfl, fun _ => rfl, rfl⟩

theorem Kept.trans (h : Kept s t) (h' : Kept t u) : Kept s u where
  starts := h'.starts.trans h.starts
  stops := h'.stops.trans h.stops
  connections := h'.connections.trans h.connections
  channels := h'.channels.trans h.channels
  connectionOf k := (h'.connectionOf k).trans (h.connectionOf k)
  consumers := h'.consumers.trans h.consumers

theorem Kept.numbered (h : Kept s t) (hn : Numbered s) : Numbered t where
  channels k c hc := by
    rw [h.connectionOf] at hc
    rw [h.connections]
    exact hn.channels k c hc
  consumers x hx := by
    have hmem : x.channel ∈ s.consumers.map (·.channel) :=
      h.consumers ▸ List.mem_map_of_mem hx
    obtain ⟨y, hy, hxy⟩ := List.mem_map.mp hmem
    rw [h.channels, ← hxy]
    exact hn.consumers y hy

theorem kept_shutChannel (s : AsyncListener) (k : Nat) : Kept s (s.shutChannel k) := by
  refine ⟨rfl, rfl, rfl, by simp [shutChannel], ?_, rfl⟩
  intro j
  unfold AsyncListener.connectionOf shutChannel
  dsimp only
  rw [List.getElem?_modify]
  cases s.channels[j]? with
  | none => rfl
  | some ch => by_cases hkj : k = j <;> simp [hkj]

theorem length_close (cs : Connections) (c : Nat) : (cs.close c).length = cs.length := by
  simp [Connections.close]

/-! ## Steps of `start` -/

theorem connectionOf_append (ch : Channel) (h : t.channels = s.channels ++ [ch]) (k : Nat) :
    t.connectionOf k = if k = s.channels.length then some ch.connection else s.connectionOf k := by
  unfold connectionOf
  rw [h, getElem?_concat]
  split <;> rfl

/-- What a step of `start` leads to. -/
def Reached (s : AsyncListener) : Starting → Prop
  | .going pc => s.Ready pc
  | .returned => s.Consuming ∧ ∃ k, s.Attached k
  | .raised => s.connected = true → s.Bare

/-- The factory returns a connection without channels. -/
theorem ready_factory (hn : Numbered s) (hconn : t.conn = some s.connections.fresh)
    (hchannels : t.channels = s.channels) : t.Ready (.channel s.connections.fresh) := by
  refine ⟨hconn, ?_⟩
  intro x _ c hc hcc
  obtain rfl : s.connections.fresh = c := Option.some.inj (hconn.symm.trans hcc)
  have hold : s.connectionOf x.channel = some s.connections.fresh := by
    unfold connectionOf at hc ⊢
    rwa [hchannels] at hc
  exact absurd (hn.channels _ _ hold) (Nat.lt_irrefl _)

/-- The connection returns a channel without consumers. -/
theorem onChannel_append {c : Nat} (hn : Numbered s) (hconn : s.conn = some c) (hbare : s.Bare)
    (ht : t = { s with
      channel := some s.channels.length, channels := s.channels ++ [⟨c, true⟩] }) :
    t.OnChannel s.channels.length ∧ t.Bare := by
  have hof := connectionOf_append (s := s) (t := t) ⟨c, true⟩ (by rw [ht])
  refine ⟨⟨by rw [ht], c, by simp [hof], by rw [ht]; exact hconn⟩, ?_⟩
  intro x hx d hd
  rw [ht] at hx ⊢
  have hx : x ∈ s.consumers := hx
  have hlt := hn.consumers x hx
  rw [hof, if_neg (Nat.ne_of_lt hlt)] at hd
  exact hbare x hx d hd

theorem OnChannel.onChannel (h : s.OnChannel k) (pc : Nat → StartPc) :
    s.onChannel pc = .going (pc k) := by
  simp [AsyncListener.onChannel, h.channel]

/-- A consumer on an open channel of the connection. -/
theorem attached_append (h : s.OnChannel k) (hbare : s.Bare) (hopen : s.channelOpen k = true)
    {tag : Option Nat} (ht : t = { s with
      consumerTag := tag, consumers := s.consumers ++ [⟨k, true⟩] }) :
    t.Consuming ∧ t.Attached k := by
  subst ht
  obtain ⟨c, hof, hconn⟩ := h.conn
  have hmem : (⟨k, true⟩ : Consumer) ∈ s.consumers ++ [⟨k, true⟩] := by simp
  refine ⟨⟨k, c, hconn, hof, hopen, hmem⟩, ⟨⟨h.channel, c, hof, hconn⟩, hmem, ?_⟩⟩
  intro x hx d hd hcd
  rcases List.mem_append.mp hx with hx | hx
  · exact absurd hcd (hbare x hx d hd)
  · rw [List.mem_singleton.mp hx]

theorem startStep_reached {pc : StartPc} {p : AsyncListener × Starting} (hn : Numbered s)
    (h : s.Ready pc) (hp : s.startStep self raises pc = p) : p.1.Reached p.2 := by
  cases pc with
  | factory =>
    simp only [startStep] at hp
    split at hp <;> subst hp
    · exact fun hc => absurd hc (by rw [show s.connected = false from h]; exact nofun)
    · exact ready_factory hn rfl rfl
  | channel c =>
    obtain ⟨hconn, hbare⟩ := h
    simp only [startStep] at hp
    split at hp <;> subst hp
    · exact fun _ => hbare
    · have hready := onChannel_append hn hconn hbare rfl
      rw [hready.1.onChannel]
      unfold Reached
      dsimp only
      split <;> exact hready
  | setQos k =>
    simp only [startStep, h.1.onChannel] at hp
    split at hp <;> subst hp
    · exact fun _ => h.2
    · exact h
  | declareExchange k =>
    simp only [startStep, h.1.onChannel] at hp
    split at hp <;> subst hp
    · exact fun _ => h.2
    · exact h
  | declareQueue k =>
    simp only [startStep] at hp
    split at hp <;> subst hp
    · exact fun _ => h.2
    · exact h
  | bind k =>
    simp only [startStep] at hp
    split at hp <;> subst hp
    · exact fun _ => h.2
    · exact ⟨⟨h.1.channel, h.1.conn⟩, h.2⟩
  | consume k =>
    simp only [startStep] at hp
    split at hp <;> subst hp
    · exact fun _ => h.2
    · next hopen =>
      have hopen : s.channelOpen k = true := by
        simp only [Bool.or_eq_true, Bool.not_eq_true', not_or, Bool.not_eq_false] at hopen
        exact hopen.2
      obtain ⟨hcon, hatt⟩ := attached_append h.1 h.2 hopen rfl
      exact ⟨hcon, k, hatt⟩

theorem lt_of_isOpen {cs : Connections} {c : Nat} (h : cs.isOpen c = true) : c < cs.length := by
  by_contra hc
  rw [Connections.isOpen, List.getD_eq_getElem?_getD, List.getElem?_eq_none (by omega)] at h
  cases h

theorem lt_of_channelOpen (h : s.channelOpen k = true) : k < s.channels.length := by
  by_contra hk
  rw [channelOpen, List.getElem?_eq_none (by omega)] at h
  cases h

/-- A step of `start` numbers what it adds, and leaves the calls alone. -/
theorem startStep_numbered {pc : StartPc} {p : AsyncListener × Starting} (hn : Numbered s)
    (hp : s.startStep self raises pc = p) :
    Numbered p.1 ∧ p.1.starts = s.starts ∧ p.1.stops = s.stops := by
  cases pc with
  | factory =>
    simp only [startStep] at hp
    split at hp <;> subst hp
    · exact ⟨hn, rfl, rfl⟩
    · refine ⟨⟨?_, hn.consumers⟩, rfl, rfl⟩
      intro k c hc
      simp only [Connections.connect, List.length_append]
      exact Nat.lt_add_right _ (hn.channels k c hc)
  | channel c =>
    simp only [startStep] at hp
    split at hp <;> subst hp
    · exact ⟨hn, rfl, rfl⟩
    · next hopen =>
      simp only [Bool.or_eq_true, Bool.not_eq_true', not_or, Bool.not_eq_false] at hopen
      refine ⟨⟨?_, ?_⟩, rfl, rfl⟩
      · intro k d hd
        rw [connectionOf_append (s := s) ⟨c, true⟩ rfl] at hd
        split at hd
        · obtain rfl : c = d := Option.some.inj hd
          exact lt_of_isOpen hopen.2
        · exact hn.channels k d hd
      · intro x hx
        simp only [List.length_append]
        exact Nat.lt_add_right _ (hn.consumers x hx)
  | setQos k | declareExchange k | declareQueue k | bind k =>
    simp only [startStep] at hp
    split at hp <;> subst hp <;> exact ⟨⟨hn.channels, hn.consumers⟩, rfl, rfl⟩
  | consume k =>
    simp only [startStep] at hp
    split at hp <;> subst hp
    · exact ⟨hn, rfl, rfl⟩
    · next hopen =>
      simp only [Bool.or_eq_true, Bool.not_eq_true', not_or, Bool.not_eq_false] at hopen
      refine ⟨⟨hn.channels, ?_⟩, rfl, rfl⟩
      intro x hx
      rcases List.mem_append.mp hx with hx | hx
      · exact hn.consumers x hx
      · rw [List.mem_singleton.mp hx]
        exact lt_of_channelOpen hopen.2

/-! ## Steps of the other tasks -/

/-- The set-up is the same, but for what is open. -/
structure Alike (s t : AsyncListener) : Prop where
  conn : t.conn = s.conn
  channel : t.channel = s.channel
  consumers : t.consumers = s.consumers
  connectionOf : ∀ k, t.connectionOf k = s.connectionOf k
  isOpen : ∀ c, t.connections.isOpen c = true → s.connections.isOpen c = true

/-- A step that adds nothing and opens nothing, and moves no call. -/
structure Aside (s t : AsyncListener) : Prop extends Alike s t where
  starts : t.starts = s.starts
  stops : t.stops = s.stops
  connections : t.connections.length = s.connections.length
  channels : t.channels.length = s.channels.length

theorem Aside.kept (h : Aside s t) : Kept s t where
  starts := h.starts
  stops := h.stops
  connections := h.connections
  channels := h.channels
  connectionOf := h.connectionOf
  consumers := by rw [h.consumers]

theorem Aside.of_eq (hconn : t.conn = s.conn) (hchannel : t.channel = s.channel)
    (hconnections : t.connections = s.connections) (hchannels : t.channels = s.channels)
    (hconsumers : t.consumers = s.consumers) (hstarts : t.starts = s.starts)
    (hstops : t.stops = s.stops) : Aside s t where
  conn := hconn
  channel := hchannel
  consumers := hconsumers
  connectionOf k := by simp only [AsyncListener.connectionOf, hchannels]
  isOpen c hc := hconnections ▸ hc
  starts := hstarts
  stops := hstops
  connections := by rw [hconnections]
  channels := by rw [hchannels]

theorem goOn_aside (i : Nat) (h : Handler) : Aside s (s.goOn i h) :=
  .of_eq rfl rfl rfl rfl rfl rfl rfl

theorem handle_aside {i : Nat} {answers : ∀ o : Op, o.Ans} (ht : s.handle i answers = some t) :
    Aside s t := by
  obtain ⟨h, -, ht⟩ := Option.bind_eq_some_iff.mp ht
  cases hrest : h.rest with
  | pure a => simp only [hrest] at ht; cases ht
  | raise x => simp only [hrest] at ht; cases ht
  | call o c =>
    simp only [hrest] at ht
    split at ht
    · cases ht
      exact goOn_aside i _
    · unfold call at ht
      split at ht
      · cases ht; exact goOn_aside i _
      · cases ht; exact goOn_aside i _
      · split at ht
        · unfold acquired at ht
          dsimp only at ht
          obtain ⟨sem, -, ht⟩ := Option.bind_eq_some_iff.mp ht
          split at ht
          · split at ht <;> cases ht <;> exact .of_eq rfl rfl rfl rfl rfl rfl rfl
          · split at ht <;> cases ht
            exact .of_eq rfl rfl rfl rfl rfl rfl rfl
        · unfold acquire at ht
          split at ht
          · cases ht; exact goOn_aside i _
          · obtain ⟨sem, -, rfl⟩ := Option.map_eq_some_iff.mp ht
            split <;> exact .of_eq rfl rfl rfl rfl rfl rfl rfl
      · cases ht
        unfold release
        split <;> exact .of_eq rfl rfl rfl rfl rfl rfl rfl
      · cases ht; exact goOn_aside i _

theorem cancelHandler_aside (s : AsyncListener) (i : Nat) : Aside s (s.cancelHandler i) := by
  unfold cancelHandler
  split
  · exact .of_eq rfl rfl rfl rfl rfl rfl rfl
  · dsimp only
    split
    · exact .of_eq rfl rfl rfl rfl rfl rfl rfl
    · split <;> exact .of_eq rfl rfl rfl rfl rfl rfl rfl

theorem Aside.trans (h : Aside s t) (h' : Aside t u) : Aside s u where
  conn := h'.conn.trans h.conn
  channel := h'.channel.trans h.channel
  consumers := h'.consumers.trans h.consumers
  connectionOf k := (h'.connectionOf k).trans (h.connectionOf k)
  isOpen c hc := h.isOpen c (h'.isOpen c hc)
  starts := h'.starts.trans h.starts
  stops := h'.stops.trans h.stops
  connections := h'.connections.trans h.connections
  channels := h'.channels.trans h.channels

theorem cancelHandlers_aside (tasks : List Nat) (s : AsyncListener) :
    Aside s (tasks.foldl cancelHandler s) := by
  induction tasks generalizing s with
  | nil => exact .of_eq rfl rfl rfl rfl rfl rfl rfl
  | cons i tasks ih => exact (cancelHandler_aside s i).trans (ih (s.cancelHandler i))

theorem lose_aside (s : AsyncListener) (c : Nat) :
    Aside s { s with connections := s.connections.close c } where
  conn := rfl
  channel := rfl
  consumers := rfl
  connectionOf _ := rfl
  isOpen _ hd := Connections.isOpen_of_close hd
  starts := rfl
  stops := rfl
  connections := length_close _ c
  channels := rfl

theorem loseChannel_aside (s : AsyncListener) (k : Nat) : Aside s (s.shutChannel k) where
  conn := rfl
  channel := rfl
  consumers := rfl
  connectionOf := (kept_shutChannel s k).connectionOf
  isOpen _ hd := hd
  starts := rfl
  stops := rfl
  connections := rfl
  channels := (kept_shutChannel s k).channels

theorem Alike.connected (h : Alike s t) (ht : t.connected = true) : s.connected = true := by
  obtain ⟨c, hconn, hopen⟩ := Connections.usable_iff.mp ht
  exact Connections.usable_iff.mpr ⟨c, h.conn ▸ hconn, h.isOpen c hopen⟩

theorem Alike.bare (h : Alike s t) (hs : s.Bare) : t.Bare := by
  intro x hx c hc
  rw [h.connectionOf] at hc
  rw [h.conn]
  exact hs x (h.consumers ▸ hx) c hc

theorem Alike.onChannel (h : Alike s t) (hs : s.OnChannel k) : t.OnChannel k := by
  obtain ⟨c, hc, hconn⟩ := hs.conn
  exact ⟨h.channel.trans hs.channel, c, (h.connectionOf k).trans hc, h.conn.trans hconn⟩

theorem Alike.attached (h : Alike s t) (hs : s.Attached k) : t.Attached k where
  toOnChannel := h.onChannel hs.toOnChannel
  consumer := h.consumers ▸ hs.consumer
  only x hx c hc hconn := by
    rw [h.connectionOf] at hc
    exact hs.only x (h.consumers ▸ hx) c hc (h.conn ▸ hconn)

theorem Alike.ready (h : Alike s t) {pc : StartPc} (hs : s.Ready pc) : t.Ready pc := by
  cases pc with
  | factory =>
    by_contra hc
    have := h.connected (by simpa [Ready] using hc)
    rw [show s.connected = false from hs] at this
    cases this
  | channel c => exact ⟨h.conn.trans hs.1, h.bare hs.2⟩
  | setQos | declareExchange | declareQueue | bind | consume =>
    exact ⟨h.onChannel hs.1, h.bare hs.2⟩

theorem Aside.settled (h : Aside s t) (hs : s.Settled) : t.Settled := by
  intro hc
  rw [h.starts]
  rcases hs.last (h.connected hc) with ⟨hl, k, hk⟩ | ⟨hl, hbare⟩
  · rw [hl]
    exact ⟨k, h.attached hk⟩
  · rw [hl]
    exact h.bare hbare

/-- Only the calls change. -/
theorem alike_starts (s : AsyncListener) (starts : List Starting) :
    Alike s { s with starts := starts } := ⟨rfl, rfl, rfl, fun _ => rfl, fun _ h => h⟩

/-! ## Steps of `stop` -/

/-- A `stop` that returns leaves no connection. -/
structure Stopping (s : AsyncListener) (p : AsyncListener × StopPc) : Prop where
  kept : Kept s p.1
  returned : p.2 = .returned → p.1.conn = none

theorem Stopping.of_kept {p : AsyncListener × StopPc} (hk : Kept s t) (h : Stopping t p) :
    Stopping s p := ⟨hk.trans h.kept, h.returned⟩

theorem stopChannelClosed_stopping (s : AsyncListener) : Stopping s s.stopChannelClosed := by
  unfold stopChannelClosed
  dsimp only
  split
  · next hnone => exact ⟨⟨rfl, rfl, rfl, rfl, fun _ => rfl, rfl⟩, fun _ => hnone⟩
  · split
    · exact ⟨⟨rfl, rfl, rfl, rfl, fun _ => rfl, rfl⟩, nofun⟩
    · exact ⟨⟨rfl, rfl, rfl, rfl, fun _ => rfl, rfl⟩, fun _ => rfl⟩

theorem stopFinally_stopping (s : AsyncListener) : Stopping s s.stopFinally := by
  have hclosed := stopChannelClosed_stopping
    { s with consumerTag := none, inFlight := [], semaphore := none }
  have hkept : Kept s { s with consumerTag := none, inFlight := [], semaphore := none } :=
    ⟨rfl, rfl, rfl, rfl, fun _ => rfl, rfl⟩
  unfold stopFinally
  dsimp only
  split
  · exact .of_kept hkept hclosed
  · split
    · exact ⟨⟨rfl, rfl, rfl, rfl, fun _ => rfl, rfl⟩, nofun⟩
    · exact .of_kept hkept hclosed

theorem stopCancelled_stopping (s : AsyncListener) : Stopping s (s.stopCancelled self) := by
  unfold stopCancelled
  split
  · exact stopFinally_stopping s
  · exact ⟨.refl s, nofun⟩

theorem stopBegin_stopping (self : Config) (s : AsyncListener) : Stopping s (s.stopBegin self) := by
  unfold stopBegin
  split
  · exact ⟨.refl s, nofun⟩
  · exact stopCancelled_stopping s

theorem cancelConsumer_kept (s : AsyncListener) (k tag : Nat) :
    Kept s (s.cancelConsumer k tag) := by
  refine ⟨rfl, rfl, rfl, rfl, fun _ => rfl, ?_⟩
  refine List.ext_getElem? ?_
  intro i
  unfold cancelConsumer
  simp only [List.getElem?_map, List.getElem?_modify]
  cases s.consumers[i]? with
  | none => rfl
  | some x => by_cases hi : tag = i <;> simp [hi]

theorem stopStep_stopping {pc : StopPc} {p : AsyncListener × StopPc}
    (hp : s.stopStep self raises pc = some p) : Stopping s p := by
  cases pc with
  | cancelConsumer k tag =>
    cases hp
    split
    · exact stopCancelled_stopping s
    · exact .of_kept (cancelConsumer_kept s k tag) (stopCancelled_stopping _)
  | wait tasks until_ =>
    simp only [stopStep] at hp
    split at hp
    · cases hp
      exact stopFinally_stopping s
    · split at hp <;> cases hp
      exact ⟨(cancelHandlers_aside tasks s).kept, nofun⟩
  | waitCancelled tasks =>
    simp only [stopStep] at hp
    split at hp <;> cases hp
    exact stopFinally_stopping s
  | closeChannel k =>
    cases hp
    split
    · exact stopChannelClosed_stopping s
    · exact .of_kept (kept_shutChannel s k) (stopChannelClosed_stopping _)
  | closeConnection c =>
    cases hp
    refine ⟨⟨rfl, rfl, ?_, rfl, fun _ => rfl, rfl⟩, fun _ => rfl⟩
    dsimp only
    split
    · rfl
    · exact length_close _ c
  | returned => cases hp

/-! ## One step -/

/-- A step is one of `start` or `stop`, or moves no call and opens nothing. -/
theorem step_cases {a : Action} (ht : s.step self a = some t) :
    (a = .callStart ∧ t = { s with starts := s.starts ++ [s.startBegin] }) ∨
    (∃ i raises, a = .start i raises ∧ s.start self i raises = some t) ∨
    (a = .callStop ∧ t = { (s.stopBegin self).1 with
      stops := (s.stopBegin self).1.stops ++ [(s.stopBegin self).2] }) ∨
    (∃ i raises, a = .stop i raises ∧ s.stop self i raises = some t) ∨ Aside s t := by
  cases a with
  | callStart => cases ht; exact .inl ⟨rfl, rfl⟩
  | start i raises => exact .inr (.inl ⟨i, raises, rfl, ht⟩)
  | callStop => cases ht; exact .inr (.inr (.inl ⟨rfl, rfl⟩))
  | stop i raises => exact .inr (.inr (.inr (.inl ⟨i, raises, rfl, ht⟩)))
  | deliver message =>
    simp only [step] at ht
    split at ht <;> cases ht
    exact .inr (.inr (.inr (.inr (.of_eq rfl rfl rfl rfl rfl rfl rfl))))
  | handle i answers => exact .inr (.inr (.inr (.inr (handle_aside ht))))
  | tick dt =>
    simp only [step] at ht
    split at ht <;> cases ht
    exact .inr (.inr (.inr (.inr (.of_eq rfl rfl rfl rfl rfl rfl rfl))))
  | lose c => cases ht; exact .inr (.inr (.inr (.inr (lose_aside s c))))
  | loseChannel k => cases ht; exact .inr (.inr (.inr (.inr (loseChannel_aside s k))))

/-! ## Sequential runs -/

/-- In a sequential run nothing is under way, or the last call of `start`, or the
last call of `stop`. -/
inductive Phase (s : AsyncListener) : Prop
  | idle (hquiet : s.quiet = true) (hsettled : s.Settled)
  | starting (earlier : List Starting) (pc : StartPc) (hstarts : s.starts = earlier ++ [.going pc])
    (hearlier : earlier.all Starting.ended = true)
    (hstops : s.stops.all (· == .returned) = true) (hready : s.Ready pc)
  | stopping (earlier : List StopPc) (pc : StopPc) (hstops : s.stops = earlier ++ [pc])
    (hpc : pc ≠ .returned) (hearlier : earlier.all (· == .returned) = true)
    (hstarts : s.starts.all Starting.ended = true)

theorem Phase.aside (hp : Phase s) (h : Aside s t) : Phase t := by
  cases hp with
  | idle hquiet hsettled =>
    exact .idle (by rw [quiet, h.starts, h.stops]; exact hquiet) (h.settled hsettled)
  | starting earlier pc hstarts hearlier hstops hready =>
    exact .starting earlier pc (h.starts.trans hstarts) hearlier (h.stops ▸ hstops) (h.ready hready)
  | stopping earlier pc hstops hpc hearlier hstarts =>
    exact .stopping earlier pc (h.stops.trans hstops) hpc hearlier (h.starts ▸ hstarts)

theorem Phase.settled (hp : Phase s) (hquiet : s.quiet = true) : s.Settled := by
  simp only [quiet, Bool.and_eq_true] at hquiet
  cases hp with
  | idle hquiet' hsettled => exact hsettled
  | starting earlier pc hstarts hearlier hstops hready =>
    rw [hstarts, List.all_append] at hquiet
    cases (Bool.and_eq_true_iff.mp hquiet.1).2
  | stopping earlier pc hstops hpc hearlier hstarts =>
    rw [hstops, List.all_append] at hquiet
    exact absurd (by simpa using (Bool.and_eq_true_iff.mp hquiet.2).2) hpc

/-- A call of `start` under way is the last one, and no `stop` is under way. -/
theorem Phase.going {i : Nat} {pc : StartPc} (hp : Phase s)
    (hi : s.starts[i]? = some (.going pc)) :
    ∃ earlier, s.starts = earlier ++ [.going pc] ∧ i = earlier.length ∧
      earlier.all Starting.ended = true ∧ s.stops.all (· == .returned) = true ∧ s.Ready pc := by
  cases hp with
  | idle hquiet hsettled =>
    simp only [quiet, Bool.and_eq_true] at hquiet
    cases List.all_eq_true.mp hquiet.1 _ (List.mem_of_getElem? hi)
  | stopping earlier pc' hstops hpc hearlier hstarts =>
    cases List.all_eq_true.mp hstarts _ (List.mem_of_getElem? hi)
  | starting earlier pc' hstarts hearlier hstops hready =>
    rw [hstarts] at hi
    obtain ⟨hlen, hpc⟩ := eq_length_of_getElem? hearlier hi rfl
    cases hpc
    exact ⟨earlier, hstarts, hlen, hearlier, hstops, hready⟩

theorem phase_callStart (hp : Phase s) (hseq : s.quiet = true)
    (hun : unbroken s .callStart = true) :
    Phase { s with starts := s.starts ++ [s.startBegin] } := by
  have hsettled := hp.settled hseq
  simp only [quiet, Bool.and_eq_true] at hseq
  unfold startBegin
  split
  · next hc =>
    refine .idle ?_ fun _ => ?_
    · simp only [quiet, List.all_append, hseq.1, hseq.2]
      rfl
    · simp only [unbroken, hc, Bool.not_true, Bool.false_or, Bool.and_eq_true, bne_iff_ne] at hun
      rw [List.getLast?_concat]
      rcases hsettled.last hc with ⟨-, k, hk⟩ | ⟨hl, -⟩
      · exact ⟨k, (alike_starts s _).attached hk⟩
      · exact absurd hl hun.1
  · next hc =>
    exact .starting s.starts .factory rfl hseq.1 hseq.2
      (show s.connected = false by simpa using hc)

theorem phase_start {i : Nat} (hn : Numbered s) (hp : Phase s)
    (ht : s.start self i raises = some t) : Numbered t ∧ Phase t := by
  obtain ⟨pc, ⟨u, next⟩, hi, hstep, rfl⟩ := start_cases ht
  obtain ⟨hn', hstarts', hstops'⟩ := startStep_numbered hn hstep
  refine ⟨⟨hn'.channels, hn'.consumers⟩, ?_⟩
  obtain ⟨earlier, hstarts, rfl, hearlier, hstops, hready⟩ := hp.going hi
  have hreached := startStep_reached hn hready hstep
  have hset : u.starts.set earlier.length next = earlier ++ [next] := by
    rw [show u.starts = s.starts from hstarts', hstarts,
      List.set_append_right _ _ (Nat.le_refl _)]
    simp
  have hstops : u.stops.all (· == .returned) = true := by
    rw [show u.stops = s.stops from hstops']
    exact hstops
  have hal := alike_starts u (u.starts.set earlier.length next)
  show Phase { u with starts := u.starts.set earlier.length next }
  cases next with
  | going next => exact .starting earlier next hset hearlier hstops (hal.ready hreached)
  | returned =>
    obtain ⟨-, k, hk⟩ := hreached
    refine .idle ?_ fun _ => ?_
    · simp only [quiet, hset, List.all_append, hearlier, hstops]
      rfl
    · rw [hset, List.getLast?_concat]
      exact ⟨k, hset ▸ hal.attached hk⟩
  | raised =>
    refine .idle ?_ fun hc => ?_
    · simp only [quiet, hset, List.all_append, hearlier, hstops]
      rfl
    · rw [hset, List.getLast?_concat]
      exact hset ▸ hal.bare (hreached hc)

/-- The last call of `stop` is under way, or has returned without a connection. -/
theorem phase_of_stopping {p : AsyncListener × StopPc} {earlier stops : List StopPc}
    (h : Stopping s p) (hstops : stops = earlier ++ [p.2])
    (hearlier : earlier.all (· == .returned) = true)
    (hstarts : s.starts.all Starting.ended = true) : Phase { p.1 with stops := stops } := by
  have hstarts : p.1.starts.all Starting.ended = true := by rw [h.kept.starts]; exact hstarts
  by_cases hpc : p.2 = .returned
  · refine .idle ?_ fun hc => ?_
    · simp only [quiet, hstarts, hstops, List.all_append, hearlier, hpc]
      rfl
    · have hnone := h.returned hpc
      rw [connected, show p.1.conn = none from hnone] at hc
      cases hc
  · exact .stopping earlier p.2 hstops hpc hearlier hstarts

theorem phase_callStop (hseq : s.quiet = true) :
    Phase { (s.stopBegin self).1 with
      stops := (s.stopBegin self).1.stops ++ [(s.stopBegin self).2] } := by
  have hst := stopBegin_stopping self s
  simp only [quiet, Bool.and_eq_true] at hseq
  exact phase_of_stopping hst (by rw [hst.kept.stops]) hseq.2 hseq.1

theorem phase_stop {i : Nat} (hn : Numbered s) (hp : Phase s) (ht : s.stop self i raises = some t) :
    Numbered t ∧ Phase t := by
  obtain ⟨pc, p, hi, hstep, rfl⟩ := stop_cases ht
  have hst := stopStep_stopping hstep
  have hn' := hst.kept.numbered hn
  refine ⟨⟨hn'.channels, hn'.consumers⟩, ?_⟩
  have hne : pc ≠ .returned := by
    rintro rfl
    cases hstep
  have hidle : ¬ s.stops.all (· == .returned) = true := fun hall =>
    hne (by simpa using List.all_eq_true.mp hall pc (List.mem_of_getElem? hi))
  cases hp with
  | idle hquiet hsettled =>
    simp only [quiet, Bool.and_eq_true] at hquiet
    exact absurd hquiet.2 hidle
  | starting earlier pc' hstarts hearlier hstops hready => exact absurd hstops hidle
  | stopping earlier pc' hstops hpc hearlier hstarts =>
    rw [hstops] at hi
    obtain ⟨rfl, rfl⟩ := eq_length_of_getElem? hearlier hi (by simpa using hne)
    refine phase_of_stopping hst ?_ hearlier hstarts
    rw [hst.kept.stops, hstops, List.set_append_right _ _ (Nat.le_refl _)]
    simp

theorem phase_step {a : Action} (hn : Numbered s) (hp : Phase s) (hseq : sequential s a = true)
    (hun : unbroken s a = true) (ht : s.step self a = some t) : Numbered t ∧ Phase t := by
  rcases step_cases ht with
    ⟨rfl, rfl⟩ | ⟨i, raises, rfl, ht⟩ | ⟨rfl, rfl⟩ | ⟨i, raises, rfl, ht⟩ | haside
  · exact ⟨⟨hn.channels, hn.consumers⟩, phase_callStart hp hseq hun⟩
  · exact phase_start hn hp ht
  · have hn' := (stopBegin_stopping self s).kept.numbered hn
    exact ⟨⟨hn'.channels, hn'.consumers⟩, phase_callStop hseq⟩
  · exact phase_stop hn hp ht
  · exact ⟨haside.kept.numbered hn, hp.aside haside⟩

theorem phase_of_reach
    (h : (machine self).Reach (fun s a => sequential s a = true ∧ unbroken s a = true) s) :
    Numbered s ∧ Phase s := by
  refine h.invariant (P := fun s => Numbered s ∧ Phase s) ⟨⟨nofun, nofun⟩, .idle rfl nofun⟩ ?_
  exact fun _ _ _ _ hc hp ht => phase_step hp.1 hp.2 hc.1 hc.2 ht

/-! ## When a `start` that returns has set up a consumer -/

/-- `start` returns at once. -/
theorem consuming_iff_unbroken (hsettled : s.Settled) (hc : s.connected = true) :
    s.Consuming ↔ unbroken s .callStart = true := by
  simp only [unbroken, hc, Bool.not_true, Bool.false_or, Bool.and_eq_true, bne_iff_ne]
  rcases hsettled.last hc with ⟨hl, j, hj⟩ | ⟨hl, hbare⟩
  · constructor
    · rintro ⟨k, c, hconn, hof, hopen, hmem⟩
      obtain rfl : k = j := hj.only _ hmem c hof hconn
      rw [hl, hj.channel]
      exact ⟨nofun, hopen⟩
    · rintro ⟨-, hopen⟩
      obtain ⟨c, hof, hconn⟩ := hj.conn
      rw [hj.channel] at hopen
      exact ⟨j, c, hconn, hof, hopen, hj.consumer⟩
  · constructor
    · rintro ⟨k, c, hconn, hof, -, hmem⟩
      exact absurd hconn (hbare _ hmem c hof)
    · rintro ⟨hlast, -⟩
      exact absurd hl hlast

/-- A step that makes no call of `start` return. -/
theorem not_returns {i : Nat} (h : t.starts = s.starts) :
    ¬ (t.starts[i]? = some .returned ∧ s.starts[i]? ≠ some .returned) := by
  rw [h]
  exact fun hi => hi.2 hi.1

/-- A `start` returns in its last step. -/
theorem consuming_of_start {i j : Nat} (hn : Numbered s) (hp : Phase s)
    (ht : s.start self j raises = some t)
    (hi : t.starts[i]? = some .returned ∧ s.starts[i]? ≠ some .returned) : t.Consuming := by
  obtain ⟨pc, p, hj, hstep, rfl⟩ := start_cases ht
  obtain ⟨-, hstarts', -⟩ := startStep_numbered hn hstep
  obtain ⟨hi, hnot⟩ := hi
  simp only [hstarts'] at hi
  have hij : j = i := by
    by_contra hij
    rw [List.getElem?_set_ne hij] at hi
    exact hnot hi
  subst hij
  rw [List.getElem?_set_self (List.getElem?_eq_some_iff.mp hj).1] at hi
  obtain ⟨-, -, -, -, -, hready⟩ := hp.going hj
  have hreached := startStep_reached hn hready hstep
  rw [Option.some.inj hi] at hreached
  obtain ⟨k, c, hconn, hof, hopen, hmem⟩ := hreached.1
  exact ⟨k, c, hconn, hof, hopen, hmem⟩

/-- **A `start` that returns has a consumer registered on an open channel of the
open connection exactly if its call is unbroken**, in every run of calls one after
the other that were unbroken so far. -/
theorem start_consumes_iff {a : Action}
    (hs : (machine self).Reach (fun s a => sequential s a = true ∧ unbroken s a = true) s)
    (ha : sequential s a = true) (ht : s.step self a = some t)
    (hret : ∃ i : Nat, t.starts[i]? = some .returned ∧ s.starts[i]? ≠ some .returned) :
    t.Consuming ↔ unbroken s a = true := by
  obtain ⟨i, hi⟩ := hret
  obtain ⟨hn, hp⟩ := phase_of_reach hs
  rcases step_cases ht with
    ⟨rfl, rfl⟩ | ⟨j, raises, rfl, ht⟩ | ⟨rfl, rfl⟩ | ⟨j, raises, rfl, ht⟩ | haside
  · by_cases hc : s.connected = true
    · exact consuming_iff_unbroken (hp.settled ha) hc
    · exfalso
      obtain ⟨hi, hnot⟩ := hi
      simp only [startBegin, hc, Bool.false_eq_true, if_false] at hi
      rcases of_getElem?_concat hi with hi | ⟨-, hi⟩
      · exact hnot hi
      · cases hi
  · exact iff_of_true (consuming_of_start hn hp ht hi) rfl
  · exact absurd hi (not_returns (stopBegin_stopping self s).kept.starts)
  · obtain ⟨pc, p, -, hstep, rfl⟩ := stop_cases ht
    exact absurd hi (not_returns (stopStep_stopping hstep).kept.starts)
  · exact absurd hi (not_returns haside.starts)

/-! ## A start that sets up a consumer, and one that does not -/

/-- No destination options, a prefetch count of ten. -/
def prefetching : Config where
  settings := ⟨[], false⟩
  prefetchCount := 10
  maxConcurrency := none
  shutdownTimeout := 10

/-- One `start`, all of whose steps but the last have succeeded. -/
def almostStarted : AsyncListener :=
  ((machine prefetching).runIn (fun s a => sequential s a && unbroken s a) initial
    (.callStart :: List.replicate 6 (.start 0 false))).getD initial

theorem almostStarted_reach : (machine prefetching).Reach
    (fun s a => sequential s a = true ∧ unbroken s a = true) almostStarted :=
  (Machine.path_of_isSome (by decide +kernel) initial).mono fun s a h => by simpa using h

theorem start_consumes_iff_last :
    ((almostStarted.step prefetching (.start 0 false)).getD initial).Consuming := by
  have hret : ∃ i : Nat,
      ((almostStarted.step prefetching (.start 0 false)).getD initial).starts[i]? = some .returned ∧
        almostStarted.starts[i]? ≠ some .returned := ⟨0, by decide +kernel⟩
  exact (start_consumes_iff almostStarted_reach (a := .start 0 false) rfl rfl hret).mpr rfl

/-- The first `start` has a connection, and raises since it gets no channel. -/
def halfStarted : AsyncListener :=
  ((machine prefetching).runIn (fun s a => sequential s a && unbroken s a) initial
    [.callStart, .start 0 false, .start 0 true]).getD initial

/-- The next `start` returns at once, and nobody consumes. -/
theorem start_returns_idle : ∃ s a t, (machine prefetching).Reach
      (fun s a => sequential s a = true) s ∧ sequential s a = true ∧
    s.step prefetching a = some t ∧
    (∃ i : Nat, t.starts[i]? = some .returned ∧ s.starts[i]? ≠ some .returned) ∧
    ¬ t.Consuming := by
  refine ⟨halfStarted, .callStart, _, ?_, by decide +kernel, rfl, ⟨1, by decide +kernel⟩, ?_⟩
  · refine (Machine.path_of_isSome (c := fun s a => sequential s a && unbroken s a)
      (by decide +kernel) initial).mono fun s a h => ?_
    exact (Bool.and_eq_true_iff.mp h).1
  · rintro ⟨k, c, -, -, -, hmem⟩
    have hnil : halfStarted.consumers = [] := by decide +kernel
    rw [show ({ halfStarted with starts := _ } : AsyncListener).consumers = [] from hnil] at hmem
    cases hmem

end AsyncListener

end MqAdapters
