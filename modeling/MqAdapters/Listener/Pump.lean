import MqAdapters.Listener.Setup
import MqAdapters.Listener.Stop

/-!
# What the listener pumps

`run` tests and replaces the connection and the channel separately, and set-up
assigns the channel before it has a consumer.

* `Coherent`: the only connection that can be open is the one in the field, none is
  while the loop connects, and a channel in the field has its consumer except where
  a set-up is under way or has failed.
* `pumps_one_consumer`: whenever `process_data_events` is called, the channel in the
  field is one of the connection in the field, with one consumer.
-/

namespace MqAdapters

open Theory

namespace ListenerLoop

variable {self : Config} {s t u : ListenerLoop}

/-- The loop has no open connection, whatever the other thread does. -/
def Pc.offline : Pc → Bool
  | .begin | .retry _ | .connecting _ | .retryFailed _ | .retrySleep _ _ => true
  | .clearChannel _ | .clearConnection _ | .backoff _ | .sleep _ => true
  | _ => false

/-- No set-up is under way, and none has failed since the fields were cleared. -/
def Pc.whole : Pc → Bool
  | .setup | .handler _ | .closeChannel _ | .closeConnection _ | .clearChannel _ => false
  | .exited | .escaped _ => false
  | _ => true

/-- The consumer of the channel in the field is set up, or will be next. -/
def Pc.serving : Pc → Bool
  | .setup | .pump => true
  | _ => false

/-- The channel in the field is one of the connection in the field, and `n`
consumers were registered on it. -/
def Serves (s : ListenerLoop) (n : Nat) : Prop :=
  ∃ c k ch, s.connection = some c ∧ s.channel = some k ∧ s.channels[k]? = some ch ∧
    ch.connection = c ∧ ch.consumers = n

/-- The channel in the field, if there is one, has its consumer. -/
def Consumes (s : ListenerLoop) : Prop :=
  ∀ k, s.channel = some k → ∃ ch, s.channels[k]? = some ch ∧ ch.consumers = 1

/-- See the head of the file.  A handler that finds `stop_me` set clears nothing,
and the loop does not go on then. -/
structure Coherent (s : ListenerLoop) : Prop where
  only : s.connections.OnlyOpen s.connection
  offline : s.pc.offline = true → s.connections.AllClosed
  whole : s.pc.whole = true → (s.pc = .top → s.stopMe = false) → s.Consumes
  setup : s.pc = .setup → s.Serves 0
  pump : s.pc = .pump → s.Serves 1

theorem coherent_initial : Coherent initial where
  only := Connections.AllClosed.onlyOpen fun _ => rfl
  offline := fun _ _ => rfl
  whole := fun _ _ _ hk => by cases hk
  setup := nofun
  pump := nofun

/-! ## Steps that register nothing -/

/-- The fields stay, nothing is opened, and the channels keep their consumers. -/
structure Quiet (s t : ListenerLoop) : Prop extends Shrinks s t where
  channel : t.channel = s.channel
  channels : ∀ (k : Nat) (ch : ListenerChannel), s.channels[k]? = some ch →
    ∃ ch' : ListenerChannel, t.channels[k]? = some ch' ∧ ch'.connection = ch.connection ∧
      ch'.consumers = ch.consumers

theorem Quiet.same (hc : t.connection = s.connection) (hcs : t.connections = s.connections)
    (hk : t.channel = s.channel) (hks : t.channels = s.channels) : Quiet s t :=
  ⟨.same hc hcs, hk, fun _ ch hch => ⟨ch, hks ▸ hch, rfl, rfl⟩⟩

theorem Quiet.trans (h : Quiet s t) (h' : Quiet t u) : Quiet s u := by
  refine ⟨⟨h'.connection.trans h.connection, fun c hc => h.isOpen c (h'.isOpen c hc)⟩,
    h'.channel.trans h.channel, ?_⟩
  intro k ch hch
  obtain ⟨ch', hch', hconn, hcons⟩ := h.channels k ch hch
  obtain ⟨ch'', hch'', hconn', hcons'⟩ := h'.channels k ch' hch'
  exact ⟨ch'', hch'', hconn'.trans hconn, hcons'.trans hcons⟩

theorem Quiet.serves {n : Nat} (h : Quiet s t) (hs : s.Serves n) : t.Serves n := by
  obtain ⟨c, k, ch, hc, hk, hch, hconn, hcons⟩ := hs
  obtain ⟨ch', hch', hconn', hcons'⟩ := h.channels k ch hch
  exact ⟨c, k, ch', h.connection.trans hc, h.channel.trans hk, hch', hconn'.trans hconn,
    hcons'.trans hcons⟩

theorem Quiet.consumes (h : Quiet s t) (hs : s.Consumes) : t.Consumes := by
  intro k hk
  obtain ⟨ch, hch, hcons⟩ := hs k (h.channel ▸ hk)
  obtain ⟨ch', hch', -, hcons'⟩ := h.channels k ch hch
  exact ⟨ch', hch', hcons'.trans hcons⟩

theorem quiet_shutChannel (k : Option Nat) : Quiet s (s.shutChannel k) := by
  cases k with
  | none => exact .same rfl rfl rfl rfl
  | some k =>
    refine ⟨.same rfl rfl, rfl, ?_⟩
    intro j ch hch
    by_cases hkj : k = j
    · exact ⟨{ ch with isOpen := false }, by simp [shutChannel, hkj, hch], rfl, rfl⟩
    · exact ⟨ch, by simp [shutChannel, hkj, hch], rfl, rfl⟩

theorem quiet_dropChannel : Quiet s s.dropChannel := by
  unfold dropChannel
  split
  · exact quiet_shutChannel s.channel
  · exact .same rfl rfl rfl rfl

theorem quiet_dropConnection (raises : Bool) : Quiet s (s.dropConnection raises) := by
  refine ⟨shrinks_dropConnection raises, ?_, ?_⟩
  all_goals
    unfold dropConnection
    repeat' split
  all_goals first | rfl | exact fun _ ch hch => ⟨ch, hch, rfl, rfl⟩

theorem quiet_runQueued (raises : Bool) : Quiet s (s.runQueued raises) := by
  unfold runQueued
  repeat' split
  · exact .same rfl rfl rfl rfl
  · next c _ _ =>
    have hqueue : Quiet s { s with queued := s.queued.filter (· ≠ c) } := .same rfl rfl rfl rfl
    exact (hqueue.trans quiet_dropChannel).trans (quiet_dropConnection raises)
  · exact .same rfl rfl rfl rfl

theorem stop_quiet (h : s.stop = some t) : Quiet s t := by
  obtain ⟨hshrinks, -, -⟩ := stop_shrinks h
  rcases stop_cases h with ⟨_, _, _, rfl⟩ | ⟨-, rfl⟩ | ⟨_, -, rfl⟩ | ⟨c, _, -, -, rfl⟩
  · exact .same rfl rfl rfl rfl
  · exact .same rfl rfl rfl rfl
  · have hshut := quiet_shutChannel (s := s) s.channel
    exact ⟨hshrinks, hshut.channel, hshut.channels⟩
  · exact ⟨hshrinks, rfl, fun _ ch hch => ⟨ch, hch, rfl, rfl⟩⟩

/-- Another thread, or the broker, keeps the invariant. -/
theorem Coherent.quiet (hs : Coherent s) (h : Quiet s t) (hpc : t.pc = s.pc)
    (hstop : s.stopMe = true → t.stopMe = true) : Coherent t where
  only := h.onlyOpen hs.only
  offline hp := h.allClosed (hs.offline (hpc ▸ hp))
  whole hp ht := by
    refine h.consumes (hs.whole (hpc ▸ hp) ?_)
    intro htop
    by_contra hs'
    rw [hstop (by simpa using hs')] at ht
    exact absurd (ht (hpc.trans htop)) (by simp)
  setup hp := h.serves (hs.setup (hpc ▸ hp))
  pump hp := h.serves (hs.pump (hpc ▸ hp))

/-! ## The loop -/

/-- The loop goes on with the fields as they are. -/
theorem Coherent.goes (hs : Coherent s) (h : Quiet s t)
    (hoff : t.pc.offline = true → t.connections.AllClosed) (hserving : t.pc.serving = false)
    (hwhole : t.pc.whole = true → (t.pc = .top → t.stopMe = false) → s.Consumes) : Coherent t where
  only := h.onlyOpen hs.only
  offline := hoff
  whole hp ht := h.consumes (hwhole hp ht)
  setup hp := by rw [hp] at hserving; cases hserving
  pump hp := by rw [hp] at hserving; cases hserving

/-- It may have an open connection there. -/
theorem Coherent.online (hs : Coherent s) (h : Quiet s t) (hoff : t.pc.offline = false)
    (hserving : t.pc.serving = false)
    (hwhole : t.pc.whole = true → (t.pc = .top → t.stopMe = false) → s.Consumes) : Coherent t :=
  hs.goes h (fun hp => absurd hp (by simp [hoff])) hserving hwhole

/-- The loop goes on where nothing is known of the channel. -/
theorem Coherent.breaks (hs : Coherent s) (h : Quiet s t)
    (hoff : t.pc.offline = true → t.connections.AllClosed) (hserving : t.pc.serving = false)
    (hwhole : t.pc.whole = false) : Coherent t :=
  hs.goes h hoff hserving fun hp => absurd hp (by simp [hwhole])

/-- The loop goes on to a handler. -/
theorem Coherent.fails (hs : Coherent s) (h : Quiet s t) {level : Level}
    (hpc : t.pc = .handler level) : Coherent t :=
  hs.breaks h (fun hp => by rw [hpc] at hp; cases hp) (by rw [hpc]; rfl) (by rw [hpc]; rfl)

/-- The loop goes on where it has no open connection. -/
theorem Coherent.waits (hs : Coherent s) (h : Quiet s t) (hpc : s.pc.offline = true)
    (hwhole : t.pc.whole = true → s.pc.whole = true) (htop : s.pc ≠ .top)
    (hserving : t.pc.serving = false) : Coherent t :=
  hs.goes h (fun _ => h.allClosed (hs.offline hpc)) hserving
    fun hp _ => hs.whole (hwhole hp) fun ht => absurd ht htop

/-- A channel that is open is one of the connection in the field. -/
theorem Coherent.serves (hs : Coherent s) (hcons : s.Consumes) (hopen : s.consuming = true) :
    s.Serves 1 := by
  obtain ⟨k, hk, hopen⟩ := (Option.any_eq_true _ _).mp hopen
  obtain ⟨ch, hch, hone⟩ := hcons k hk
  have hconn : s.connections.isOpen ch.connection = true := by
    simp only [channelOpen, hch, Option.any_some, Bool.and_eq_true] at hopen
    exact hopen.2
  exact ⟨ch.connection, k, ch, hs.only _ hconn, hk, hch, rfl, hone⟩

theorem coherent_setup (hs : Coherent s) (hpc : s.pc = .setup) : Coherent (s.setup false) := by
  obtain ⟨c, k, ch, hc, hk, hch, hconn, hcons⟩ := hs.setup hpc
  have hmod : (s.setup false).channels[k]? = some { ch with consumers := ch.consumers + 1 } := by
    simp [setup, hk, hch]
  refine ⟨hs.only, (fun hp => by cases hp), fun _ _ j hj => ?_, (fun hp => by cases hp),
    fun _ => ?_⟩
  · obtain rfl : k = j := Option.some.inj (hk.symm.trans hj)
    exact ⟨_, hmod, by simp [hcons]⟩
  · exact ⟨c, k, _, hc, hk, hmod, hconn, by simp [hcons]⟩

theorem coherent_pump (hs : Coherent s) (hpc : s.pc = .pump) (runs raises : Bool) :
    Coherent (s.pump runs raises) := by
  let u := if runs then s.runQueued raises else s
  have hquiet : Quiet s u := by
    cases runs
    · exact .same rfl rfl rfl rfl
    · exact quiet_runQueued raises
  show Coherent (if raises then { u with pc := .handler .inner }
    else { u with loopFailures := 0, pc := .top })
  split
  · exact hs.fails (hquiet.trans (.same rfl rfl rfl rfl)) rfl
  · refine hs.online (hquiet.trans (.same rfl rfl rfl rfl)) rfl rfl ?_
    exact fun _ _ => hs.whole (by rw [hpc]; rfl) (by simp [hpc])

/-- **One step of the loop**: set-up gives a new channel its consumer, and every
failure on the way ends in a handler, which clears both fields. -/
theorem coherent_io {raises runs : Bool} {draw : ℚ} (hs : Coherent s)
    (h : s.io self raises runs draw = some t) : Coherent t := by
  have hsame : ∀ pc, Quiet s { s with pc := pc } := fun _ => .same rfl rfl rfl rfl
  have hcases := io_cases h
  cases hpc : s.pc <;> simp only [hpc] at hcases
  case begin =>
    subst hcases
    refine hs.online (.same rfl rfl rfl rfl) rfl rfl ?_
    exact fun _ _ => hs.whole (by rw [hpc]; rfl) (by simp [hpc])
  case top =>
    obtain ⟨-, rfl⟩ | ⟨hstop, rfl⟩ := hcases
    · exact hs.breaks (hsame _) (fun hp => by cases hp) rfl rfl
    · refine hs.online (hsame _) rfl rfl ?_
      exact fun _ _ => hs.whole (by rw [hpc]; rfl) fun _ => hstop
  case checkConnection =>
    have hcons : s.Consumes := hs.whole (by rw [hpc]; rfl) (by simp [hpc])
    obtain ⟨-, rfl⟩ | ⟨hcon, rfl⟩ := hcases
    · exact hs.online (hsame _) rfl rfl fun _ _ => hcons
    · have ha : s.connections.AllClosed := hs.only.allClosed hcon
      exact hs.goes (hsame _) (fun _ => ha) rfl fun _ _ => hcons
  case retry attempt =>
    obtain ⟨-, rfl⟩ | ⟨-, rfl⟩ := hcases
    · exact hs.fails (hsame _) rfl
    · exact hs.waits (hsame _) (by rw [hpc]; rfl) (by simp [hpc, Pc.whole]) (by simp [hpc]) rfl
  case connecting attempt =>
    obtain ⟨-, rfl⟩ | ⟨-, rfl⟩ := hcases
    · exact hs.waits (hsame _) (by rw [hpc]; rfl) (by simp [hpc, Pc.whole]) (by simp [hpc]) rfl
    · have ha : s.connections.AllClosed := hs.offline (by rw [hpc]; rfl)
      have hcons : s.Consumes := hs.whole (by rw [hpc]; rfl) (by simp [hpc])
      exact ⟨ha.connect, (fun hp => by cases hp), fun _ _ => hcons, (fun hp => by cases hp),
        (fun hp => by cases hp)⟩
  case retryFailed attempt =>
    obtain ⟨-, rfl⟩ | ⟨-, ⟨e, -, rfl⟩ | ⟨delay, -, rfl⟩⟩ := hcases
    · exact hs.fails (hsame _) rfl
    · exact hs.fails (.same rfl rfl rfl rfl) rfl
    · exact hs.waits (hsame _) (by rw [hpc]; rfl) (by simp [hpc, Pc.whole]) (by simp [hpc]) rfl
  case retrySleep attempt until_ =>
    obtain ⟨-, rfl⟩ := hcases
    exact hs.waits (hsame _) (by rw [hpc]; rfl) (by simp [hpc, Pc.whole]) (by simp [hpc]) rfl
  case checkChannel =>
    have hcons : s.Consumes := hs.whole (by rw [hpc]; rfl) (by simp [hpc])
    obtain ⟨hopen, rfl⟩ | ⟨-, rfl⟩ := hcases
    · exact ⟨hs.only, (fun hp => by cases hp), fun _ _ => hcons, (fun hp => by cases hp),
        fun _ => hs.serves hcons hopen⟩
    · exact hs.online (hsame _) rfl rfl fun _ _ => hcons
  case openChannel =>
    obtain ⟨-, rfl⟩ | ⟨c, -, hc, rfl⟩ := hcases
    · exact hs.fails (hsame _) rfl
    · refine ⟨hs.only, (fun hp => by cases hp), (fun hp => by cases hp), fun _ => ?_,
        (fun hp => by cases hp)⟩
      exact ⟨c, s.channels.length, ⟨c, true, 0⟩, hc, rfl, List.getElem?_concat_length, rfl, rfl⟩
  case setup =>
    obtain ⟨-, rfl⟩ | ⟨-, rfl⟩ := hcases
    · exact hs.fails (hsame _) rfl
    · exact coherent_setup hs hpc
  case pump =>
    subst hcases
    exact coherent_pump hs hpc runs raises
  case handler level =>
    obtain ⟨hstop, rfl⟩ | ⟨-, rfl⟩ := hcases
    · refine hs.online (hsame _) rfl rfl fun _ ht => ?_
      rw [show s.stopMe = false from ht rfl] at hstop
      cases hstop
    · exact hs.breaks (hsame _) (fun hp => by cases hp) rfl rfl
  case closeChannel level =>
    subst hcases
    exact hs.breaks (quiet_dropChannel.trans (.same rfl rfl rfl rfl)) (fun hp => by cases hp)
      rfl rfl
  case closeConnection level =>
    subst hcases
    have ha := allClosed_dropConnection hs.only raises
    exact hs.breaks ((quiet_dropConnection raises).trans (.same rfl rfl rfl rfl)) (fun _ => ha)
      rfl rfl
  case clearChannel level =>
    subst hcases
    have ha : s.connections.AllClosed := hs.offline (by rw [hpc]; rfl)
    exact ⟨hs.only, fun _ => ha, (fun _ _ k hk => by cases hk), (fun hp => by cases hp),
      (fun hp => by cases hp)⟩
  case clearConnection level =>
    subst hcases
    have ha : s.connections.AllClosed := hs.offline (by rw [hpc]; rfl)
    have hcons : s.Consumes := hs.whole (by rw [hpc]; rfl) (by simp [hpc])
    exact ⟨ha.onlyOpen, fun _ => ha, fun _ _ => hcons, (fun hp => by cases hp),
      (fun hp => by cases hp)⟩
  case backoff level =>
    obtain ⟨e, -, rfl⟩ | ⟨delay, -, rfl⟩ := hcases
    · cases level with
      | inner => exact hs.fails (.same rfl rfl rfl rfl) rfl
      | outer => exact hs.breaks (.same rfl rfl rfl rfl) (fun hp => by cases hp) rfl rfl
    · exact hs.waits (.same rfl rfl rfl rfl) (by rw [hpc]; rfl) (by simp [hpc, Pc.whole])
        (by simp [hpc]) rfl
  case sleep until_ =>
    obtain ⟨-, rfl⟩ := hcases
    refine hs.online (hsame _) rfl rfl ?_
    exact fun _ _ => hs.whole (by rw [hpc]; rfl) (by simp [hpc])

/-! ## Runs -/

theorem coherent_step {a : Action} (hs : Coherent s) (h : s.step self a = some t) :
    Coherent t := by
  have hcases := step_cases h
  cases a with
  | io raises runs draw => exact coherent_io hs h
  | callStop | tick =>
    obtain ⟨-, rfl⟩ := hcases
    exact hs.quiet (.same rfl rfl rfl rfl) rfl id
  | stop =>
    obtain ⟨-, hpc, hstop⟩ := stop_shrinks h
    refine hs.quiet (stop_quiet h) hpc ?_
    intro hs'
    rcases hstop with hstop | hset
    · exact hstop.trans hs'
    · simp only [step, stop, hset] at h
      cases h
      rfl
  | lose c =>
    cases h
    exact hs.quiet ⟨⟨rfl, fun _ => Connections.isOpen_of_close⟩, rfl,
      fun _ ch hch => ⟨ch, hch, rfl, rfl⟩⟩ rfl id
  | loseChannel k =>
    cases h
    exact hs.quiet (quiet_shutChannel (some k)) rfl id

theorem coherent_of_reach {c : ListenerLoop → Action → Prop} (h : (machine self).Reach c s) :
    Coherent s :=
  Machine.Path.invariant h coherent_initial fun _ _ _ _ hs ht => coherent_step hs ht

/-- What the step `setup` does to the channel is what the set-up does: it adds the
consumers that were registered, for every answer of the broker. -/
theorem setup_follows (config : ListenerSetup.Config)
    (answer : (o : ListenerSetup.Op) → ListenerSetup.Op.Ans o) {k : Nat} {ch : ListenerChannel}
    (hk : s.channel = some k) (hch : s.channels[k]? = some ch) :
    (s.setup (!((ListenerSetup.setupConsumer config).exec answer).2.isOk)).channels[k]? =
      some { ch with consumers := ch.consumers +
        ((ListenerSetup.setupConsumer config).exec answer).1.countP ListenerSetup.consumes } := by
  rw [ListenerSetup.setup_consumes]
  unfold setup
  cases hr : ((ListenerSetup.setupConsumer config).exec answer).2 with
  | ok u => simp [Except.isOk, Except.toBool, ListenerSetup.registered, hk, hch]
  | error x => simp [Except.isOk, Except.toBool, ListenerSetup.registered, hch]

/-- **The listener pumps only a consumer that is fully set up**: whenever
`process_data_events` is called, the channel in the field is one of the connection
in the field, and `basic_consume` has succeeded on it once.  That the step `setup`
counts those calls is the second part. -/
theorem pumps_one_consumer (h : (machine self).Reach Machine.anyStep s) (hpc : s.pc = .pump) :
    (∃ c k ch, s.connection = some c ∧ s.channel = some k ∧ s.channels[k]? = some ch ∧
      ch.connection = c ∧ ch.consumers = 1) ∧
    ∀ (config : ListenerSetup.Config) (answer : (o : ListenerSetup.Op) → ListenerSetup.Op.Ans o)
      (u : ListenerLoop) (k : Nat) (ch : ListenerChannel),
      u.channel = some k → u.channels[k]? = some ch →
      (u.setup (!((ListenerSetup.setupConsumer config).exec answer).2.isOk)).channels[k]? =
        some { ch with consumers := ch.consumers +
          ((ListenerSetup.setupConsumer config).exec answer).1.countP ListenerSetup.consumes } :=
  ⟨(coherent_of_reach h).pump hpc, fun config answer _ _ _ hk hch =>
    setup_follows config answer hk hch⟩

/-- The first pump of a run in which nothing fails. -/
def pumping : ListenerLoop :=
  ((machine defaultConfig).runIn (fun _ _ => true) initial firstPump).getD initial

theorem pumps_one_consumer_first :
    ∃ ch, pumping.channels[0]? = some ch ∧ ch.connection = 0 ∧ ch.consumers = 1 := by
  have hreach : (machine defaultConfig).Reach Machine.anyStep pumping :=
    (Machine.path_of_runIn (c := fun _ _ => true) (show (machine defaultConfig).runIn
      (fun _ _ => true) initial firstPump = some pumping from rfl)).mono fun _ _ _ => trivial
  obtain ⟨⟨c, k, ch, hc, hk, hch, hconn, hcons⟩, -⟩ := pumps_one_consumer hreach rfl
  obtain rfl : 0 = c := Option.some.inj hc
  obtain rfl : 0 = k := Option.some.inj hk
  exact ⟨ch, hch, hconn, hcons⟩

end ListenerLoop

end MqAdapters
