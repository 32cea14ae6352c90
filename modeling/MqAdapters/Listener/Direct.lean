import MqAdapters.Listener.Pump

/-!
# What stays closed, and what a stop does itself

`stop_listening` leaves the connection to the I/O thread if it finds one that is open.
Otherwise it acts itself, and tests the fields again before each call.

* `io_moves`: what a step of the loop does to connections and channels.
* `Ages`: no connection is opened again, and a channel stays with its connection.  So
  a channel that is `Severed` stays so.
* `owned`: the factory returns no connection while `stop_listening` acts itself.
* `Aside`: then no connection is open there, so it calls nothing that is.
* `closes_of_not_owned`: after a step that is not `owned`, `stop_listening` goes on to
  close the new connection itself.
-/

namespace MqAdapters

open Theory

namespace ListenerLoop

variable {self : Config} {s t u : ListenerLoop} {k : Nat}

/-! ## What a step of the loop is -/

/-- Connections and channels stay as they are, and so do the fields. -/
structure Idles (s t : ListenerLoop) : Prop where
  connection : t.connection = s.connection
  connections : t.connections = s.connections
  channels : t.channels = s.channels
  stopping : t.stopping = s.stopping
  direct : t.direct = s.direct

theorem idles_pc (s : ListenerLoop) (pc : Pc) : Idles s { s with pc := pc } :=
  ⟨rfl, rfl, rfl, rfl, rfl⟩

/-- **What the loop does to connections and channels**, if anything. -/
theorem io_moves {raises runs : Bool} {draw : ℚ} (h : s.io self raises runs draw = some t) :
    Idles s t ∨
    (∃ attempt, s.pc = .connecting attempt ∧ raises = false ∧ t = s.connectOnce attempt false) ∨
    (∃ c, s.connection = some c ∧ t = { s with
      channel := some s.channels.length
      channels := s.channels ++ [⟨c, true, 0⟩]
      pc := .setup }) ∨
    t = s.setup false ∨
    (s.pc = .pump ∧ t = s.pump runs raises) ∨
    (∃ level, s.pc = .closeChannel level ∧
      t = { s.dropChannel with pc := .closeConnection level }) ∨
    (∃ level, s.pc = .closeConnection level ∧
      t = { s.dropConnection raises with pc := .clearChannel level }) ∨
    (∃ level, t = { s with channel := none, pc := .clearConnection level }) ∨
    ∃ level, t = { s with connection := none, pc := .backoff level } := by
  have hcases := io_cases h
  cases hpc : s.pc <;> simp only [hpc] at hcases
  case begin =>
    subst hcases
    exact .inl ⟨rfl, rfl, rfl, rfl, rfl⟩
  case top | checkConnection | checkChannel | handler | retry =>
    obtain ⟨-, rfl⟩ | ⟨-, rfl⟩ := hcases
    all_goals exact .inl (idles_pc _ _)
  case connecting attempt =>
    obtain ⟨-, rfl⟩ | ⟨hraises, rfl⟩ := hcases
    · exact .inl (idles_pc _ _)
    · exact .inr (.inl ⟨attempt, rfl, hraises, rfl⟩)
  case retryFailed attempt =>
    refine .inl ?_
    obtain ⟨-, rfl⟩ | ⟨-, ⟨e, -, rfl⟩ | ⟨delay, -, rfl⟩⟩ := hcases
    all_goals exact ⟨rfl, rfl, rfl, rfl, rfl⟩
  case retrySleep | sleep =>
    obtain ⟨-, rfl⟩ := hcases
    exact .inl (idles_pc _ _)
  case openChannel =>
    obtain ⟨-, rfl⟩ | ⟨c, -, hconn, rfl⟩ := hcases
    · exact .inl (idles_pc _ _)
    · exact .inr (.inr (.inl ⟨c, hconn, rfl⟩))
  case setup =>
    obtain ⟨-, rfl⟩ | ⟨-, rfl⟩ := hcases
    · exact .inl (idles_pc _ _)
    · exact .inr (.inr (.inr (.inl rfl)))
  case pump => exact .inr (.inr (.inr (.inr (.inl ⟨rfl, hcases⟩))))
  case closeChannel level => exact .inr (.inr (.inr (.inr (.inr (.inl ⟨level, rfl, hcases⟩)))))
  case closeConnection level =>
    exact .inr (.inr (.inr (.inr (.inr (.inr (.inl ⟨level, rfl, hcases⟩))))))
  case clearChannel level =>
    exact .inr (.inr (.inr (.inr (.inr (.inr (.inr (.inl ⟨level, hcases⟩)))))))
  case clearConnection level =>
    exact .inr (.inr (.inr (.inr (.inr (.inr (.inr (.inr ⟨level, hcases⟩)))))))
  case backoff level =>
    refine .inl ?_
    obtain ⟨e, -, rfl⟩ | ⟨delay, -, rfl⟩ := hcases
    all_goals exact ⟨rfl, rfl, rfl, rfl, rfl⟩

/-- The set-up of a consumer leaves the channels as they are otherwise. -/
theorem setup_channels {ch : ListenerChannel} (hch : s.channels[k]? = some ch) :
    ∃ ch' : ListenerChannel, (s.setup false).channels[k]? = some ch' ∧ ch'.isOpen = ch.isOpen ∧
      ch'.connection = ch.connection := by
  cases hfield : s.channel with
  | none => exact ⟨ch, by simp [setup, hfield, hch], rfl, rfl⟩
  | some j =>
    by_cases hjk : j = k
    · exact ⟨{ ch with consumers := ch.consumers + 1 }, by simp [setup, hfield, hjk, hch], rfl, rfl⟩
    · exact ⟨ch, by simp [setup, hfield, hjk, hch], rfl, rfl⟩

/-! ## What stays closed -/

/-- No connection is opened again, and a channel stays with its connection. -/
structure Ages (s t : ListenerLoop) : Prop where
  fresh : s.connections.fresh ≤ t.connections.fresh
  isOpen : ∀ c < s.connections.fresh, t.connections.isOpen c = true → s.connections.isOpen c = true
  channels : ∀ (k : Nat) (ch : ListenerChannel), s.channels[k]? = some ch →
    ∃ ch' : ListenerChannel, t.channels[k]? = some ch' ∧ ch'.connection = ch.connection

/-- The channel is one of a connection that the factory has returned. -/
def Known (s : ListenerLoop) (k : Nat) : Prop :=
  ∃ ch, s.channels[k]? = some ch ∧ ch.connection < s.connections.fresh

/-- The connection of the channel is closed. -/
def Severed (s : ListenerLoop) (k : Nat) : Prop :=
  ∃ ch, s.channels[k]? = some ch ∧ ch.connection < s.connections.fresh ∧
    s.connections.isOpen ch.connection = false

theorem Ages.same (hcs : t.connections = s.connections) (hks : t.channels = s.channels) :
    Ages s t where
  fresh := by rw [hcs]
  isOpen _ _ hc := hcs ▸ hc
  channels _ ch hch := ⟨ch, hks ▸ hch, rfl⟩

theorem Ages.trans (h : Ages s t) (h' : Ages t u) : Ages s u where
  fresh := h.fresh.trans h'.fresh
  isOpen c hlt hc := h.isOpen c hlt (h'.isOpen c (Nat.lt_of_lt_of_le hlt h.fresh) hc)
  channels k ch hch := by
    obtain ⟨ch', hch', hconn⟩ := h.channels k ch hch
    obtain ⟨ch'', hch'', hconn'⟩ := h'.channels k ch' hch'
    exact ⟨ch'', hch'', hconn'.trans hconn⟩

theorem Ages.known (h : Ages s t) (hk : s.Known k) : t.Known k := by
  obtain ⟨ch, hch, hlt⟩ := hk
  obtain ⟨ch', hch', hconn⟩ := h.channels k ch hch
  exact ⟨ch', hch', hconn ▸ Nat.lt_of_lt_of_le hlt h.fresh⟩

theorem Ages.severed (h : Ages s t) (hk : s.Severed k) : t.Severed k := by
  obtain ⟨ch, hch, hlt, hclosed⟩ := hk
  obtain ⟨ch', hch', hconn⟩ := h.channels k ch hch
  refine ⟨ch', hch', hconn ▸ Nat.lt_of_lt_of_le hlt h.fresh, ?_⟩
  rw [hconn]
  by_contra hopen
  rw [h.isOpen _ hlt (by simpa using hopen)] at hclosed
  cases hclosed

theorem Known.severed (hk : s.Known k) (ha : s.connections.AllClosed) : s.Severed k := by
  obtain ⟨ch, hch, hlt⟩ := hk
  exact ⟨ch, hch, hlt, ha _⟩

theorem Severed.not_open (hk : s.Severed k) : s.channelOpen k = false := by
  obtain ⟨ch, hch, -, hclosed⟩ := hk
  simp [channelOpen, hch, hclosed]

theorem Quiet.ages (h : Quiet s t) (hfresh : s.connections.fresh ≤ t.connections.fresh) :
    Ages s t where
  fresh := hfresh
  isOpen c _ hc := h.isOpen c hc
  channels k ch hch := by
    obtain ⟨ch', hch', hconn, -⟩ := h.channels k ch hch
    exact ⟨ch', hch', hconn⟩

@[simp] theorem runQueued_pc (raises : Bool) : (s.runQueued raises).pc = s.pc := by
  obtain ⟨_, _, _, _, h⟩ := exists_runQueued s raises
  rw [h]

theorem fresh_close (cs : Connections) (c : Nat) : (cs.close c).fresh = cs.fresh :=
  List.length_set

theorem fresh_dropConnection (raises : Bool) :
    (s.dropConnection raises).connections.fresh = s.connections.fresh := by
  unfold dropConnection
  repeat' split
  all_goals first | rfl | exact fresh_close _ _

theorem fresh_runQueued (raises : Bool) :
    (s.runQueued raises).connections.fresh = s.connections.fresh := by
  unfold runQueued
  repeat' split
  · rfl
  · rw [fresh_dropConnection, dropChannel_connections]
  · rfl

theorem ages_dropConnection (raises : Bool) : Ages s (s.dropConnection raises) :=
  (quiet_dropConnection raises).ages (fresh_dropConnection raises).ge

theorem ages_runQueued (raises : Bool) : Ages s (s.runQueued raises) :=
  (quiet_runQueued raises).ages (fresh_runQueued raises).ge

theorem ages_pump (runs raises : Bool) : Ages s (s.pump runs raises) := by
  have hages : Ages s (if runs then s.runQueued raises else s) := by
    cases runs
    · exact .same rfl rfl
    · exact ages_runQueued raises
  unfold pump
  dsimp only
  split <;> exact ⟨hages.fresh, hages.isOpen, hages.channels⟩

theorem ages_io {raises runs : Bool} {draw : ℚ} (h : s.io self raises runs draw = some t) :
    Ages s t := by
  rcases io_moves h with hidle | ⟨attempt, -, -, rfl⟩ | ⟨c, -, rfl⟩ | rfl | ⟨-, rfl⟩ |
    ⟨level, -, rfl⟩ | ⟨level, -, rfl⟩ | ⟨level, rfl⟩ | ⟨level, rfl⟩
  · exact .same hidle.connections hidle.channels
  · refine ⟨by simp [connectOnce, Connections.fresh, Connections.connect], ?_,
      fun _ ch hch => ⟨ch, hch, rfl⟩⟩
    intro c hlt hc
    rcases Connections.isOpen_connect.mp hc with hc | rfl
    · exact hc
    · exact absurd hlt (Nat.lt_irrefl _)
  · exact ⟨Nat.le_refl _, fun _ _ hc => hc,
      fun k ch hch => ⟨ch, getElem?_concat_of_some hch, rfl⟩⟩
  · refine ⟨Nat.le_refl _, fun _ _ hc => hc, fun k ch hch => ?_⟩
    obtain ⟨ch', hch', -, hconn⟩ := setup_channels hch
    exact ⟨ch', hch', hconn⟩
  · exact ages_pump runs raises
  · have hages : Ages s s.dropChannel := quiet_dropChannel.ages (by simp)
    exact ⟨hages.fresh, hages.isOpen, hages.channels⟩
  · have hages := ages_dropConnection (s := s) raises
    exact ⟨hages.fresh, hages.isOpen, hages.channels⟩
  · exact .same rfl rfl
  · exact .same rfl rfl

theorem fresh_stop (h : s.stop = some t) : t.connections.fresh = s.connections.fresh := by
  rcases stop_cases h with ⟨_, _, _, rfl⟩ | ⟨-, rfl⟩ | ⟨_, -, rfl⟩ | ⟨c, _, -, -, rfl⟩
  · rfl
  · rfl
  · simp
  · exact fresh_close _ _

theorem ages_step {a : Action} (h : s.step self a = some t) : Ages s t := by
  have hcases := step_cases h
  cases a with
  | io raises runs draw => exact ages_io h
  | callStop | tick =>
    obtain ⟨-, rfl⟩ := hcases
    exact .same rfl rfl
  | stop => exact (stop_quiet h).ages (fresh_stop h).ge
  | lose c =>
    cases h
    exact ⟨(fresh_close _ _).ge, fun _ _ => Connections.isOpen_of_close,
      fun _ ch hch => ⟨ch, hch, rfl⟩⟩
  | loseChannel k =>
    cases h
    exact (quiet_shutChannel (some k)).ages (Nat.le_refl _)

/-- The connection in the field is one that the factory has returned. -/
def Bound (s : ListenerLoop) : Prop := ∀ c, s.connection = some c → c < s.connections.fresh

theorem Ages.bound (h : Ages s t) (hc : t.connection = s.connection ∨ t.connection = none)
    (hb : s.Bound) : t.Bound := by
  intro c hconn
  rcases hc with hc | hc
  · exact Nat.lt_of_lt_of_le (hb c (hc ▸ hconn)) h.fresh
  · rw [hc] at hconn
    cases hconn

theorem bound_io {raises runs : Bool} {draw : ℚ} (hb : s.Bound)
    (h : s.io self raises runs draw = some t) : t.Bound := by
  have hages := ages_io h
  rcases io_moves h with hidle | ⟨attempt, -, -, rfl⟩ | ⟨c, -, rfl⟩ | rfl | ⟨-, rfl⟩ |
    ⟨level, -, rfl⟩ | ⟨level, -, rfl⟩ | ⟨level, rfl⟩ | ⟨level, rfl⟩
  · exact hages.bound (.inl hidle.connection) hb
  · rintro c ⟨⟩
    simp [connectOnce, Connections.fresh, Connections.connect]
  · exact hages.bound (.inl rfl) hb
  · exact hages.bound (.inl rfl) hb
  · refine hages.bound (.inl ?_) hb
    have hqueued := (quiet_runQueued (s := s) raises).connection
    unfold pump
    cases runs <;> cases raises <;> first | rfl | exact hqueued
  · exact hages.bound (.inl dropChannel_connection) hb
  · exact hages.bound (.inl (quiet_dropConnection raises).connection) hb
  · exact hages.bound (.inl rfl) hb
  · exact hages.bound (.inr rfl) hb

theorem bound_step {a : Action} (hb : s.Bound) (h : s.step self a = some t) : t.Bound := by
  have hages := ages_step h
  have hcases := step_cases h
  cases a with
  | io raises runs draw => exact bound_io hb h
  | callStop | tick =>
    obtain ⟨-, rfl⟩ := hcases
    exact hages.bound (.inl rfl) hb
  | stop => exact hages.bound (.inl (stop_quiet h).connection) hb
  | lose | loseChannel => cases h; exact hages.bound (.inl rfl) hb

/-! ## What `stop_listening` does itself -/

/-- `stop_listening` has found no open connection, and acts itself. -/
def StopPc.direct : StopPc → Bool
  | .testConsuming | .stopConsuming | .testChannel | .closeChannel => true
  | .testConnection | .testIsOpen | .closeConnection => true
  | _ => false

/-- The factory returns no connection while `stop_listening` acts itself. -/
def owned (s : ListenerLoop) : Action → Bool
  | .io raises _ _ => match s.pc with
    | .connecting _ => raises || !s.stopping.direct
    | _ => true
  | _ => true

/-- No connection is open while `stop_listening` acts itself, and it has called
nothing that was. -/
structure Aside (s : ListenerLoop) : Prop where
  closed : s.stopping.direct = true → s.connections.AllClosed
  calls : ∀ p ∈ s.direct, p.2 = false

theorem aside_initial : Aside initial := ⟨nofun, nofun⟩

theorem Aside.shrinks (ha : Aside s) (h : Shrinks s t) (hstopping : t.stopping = s.stopping)
    (hdirect : t.direct = s.direct) : Aside t where
  closed hd := h.allClosed (ha.closed (hstopping ▸ hd))
  calls p hp := ha.calls p (hdirect ▸ hp)

theorem shutChannel_leaves (k : Option Nat) :
    (s.shutChannel k).stopping = s.stopping ∧ (s.shutChannel k).direct = s.direct := by
  cases k <;> exact ⟨rfl, rfl⟩

theorem dropChannel_leaves :
    s.dropChannel.stopping = s.stopping ∧ s.dropChannel.direct = s.direct := by
  unfold dropChannel
  split
  · exact shutChannel_leaves _
  · exact ⟨rfl, rfl⟩

theorem dropConnection_leaves (raises : Bool) :
    (s.dropConnection raises).stopping = s.stopping ∧
      (s.dropConnection raises).direct = s.direct := by
  unfold dropConnection
  repeat' split
  all_goals exact ⟨rfl, rfl⟩

theorem runQueued_leaves (raises : Bool) :
    (s.runQueued raises).stopping = s.stopping ∧ (s.runQueued raises).direct = s.direct := by
  unfold runQueued
  repeat' split
  · exact ⟨rfl, rfl⟩
  · obtain ⟨hstopping, hdirect⟩ := dropConnection_leaves
      (s := { s with queued := s.queued.filter (· ≠ _) }.dropChannel) raises
    rw [hstopping, hdirect]
    exact dropChannel_leaves
  · exact ⟨rfl, rfl⟩

theorem pump_leaves (runs raises : Bool) : (s.pump runs raises).stopping = s.stopping ∧
    (s.pump runs raises).direct = s.direct := by
  have hqueued := runQueued_leaves (s := s) raises
  unfold pump
  cases runs <;> cases raises <;> first | exact ⟨rfl, rfl⟩ | exact hqueued

theorem fresh_pump (runs raises : Bool) :
    (s.pump runs raises).connections.fresh = s.connections.fresh := by
  have hqueued := fresh_runQueued (s := s) raises
  unfold pump
  cases runs <;> cases raises <;> first | rfl | exact hqueued

/-- The I/O thread does not touch what `stop_listening` does, and only the factory
returns a connection. -/
theorem io_leaves {raises runs : Bool} {draw : ℚ} (h : s.io self raises runs draw = some t) :
    (t.stopping = s.stopping ∧ t.direct = s.direct) ∧
      (t.connections.fresh = s.connections.fresh ∨
        (∃ attempt, s.pc = .connecting attempt) ∧ raises = false) := by
  rcases io_moves h with hidle | ⟨attempt, hpc, rfl, rfl⟩ | ⟨c, -, rfl⟩ | rfl | ⟨-, rfl⟩ |
    ⟨level, -, rfl⟩ | ⟨level, -, rfl⟩ | ⟨level, rfl⟩ | ⟨level, rfl⟩
  · exact ⟨⟨hidle.stopping, hidle.direct⟩, .inl (by rw [hidle.connections])⟩
  · exact ⟨⟨rfl, rfl⟩, .inr ⟨⟨attempt, hpc⟩, rfl⟩⟩
  · exact ⟨⟨rfl, rfl⟩, .inl rfl⟩
  · exact ⟨⟨rfl, rfl⟩, .inl rfl⟩
  · exact ⟨pump_leaves runs raises, .inl (fresh_pump runs raises)⟩
  · exact ⟨dropChannel_leaves, .inl (by simp)⟩
  · exact ⟨dropConnection_leaves raises, .inl (fresh_dropConnection raises)⟩
  · exact ⟨⟨rfl, rfl⟩, .inl rfl⟩
  · exact ⟨⟨rfl, rfl⟩, .inl rfl⟩

/-- Without a new connection, all stay closed. -/
theorem Ages.allClosed (h : Ages s t) (hfresh : t.connections.fresh = s.connections.fresh)
    (ha : s.connections.AllClosed) : t.connections.AllClosed := by
  intro c
  by_cases hlt : c < s.connections.fresh
  · by_contra hopen
    exact absurd (h.isOpen c hlt (by simpa using hopen)) (by simp [ha c])
  · exact Connections.isOpen_of_fresh_le (by omega)

theorem closed_channel (ha : s.connections.AllClosed) (k : Nat) : s.channelOpen k = false := by
  cases hch : s.channels[k]? <;> simp [channelOpen, hch, ha _]

theorem closed_consuming (ha : s.connections.AllClosed) : s.consuming = false := by
  cases hk : s.channel <;> simp [consuming, hk, closed_channel ha]

/-- **A step of `stop_listening`**: it acts itself only if no connection is open. -/
theorem aside_stop (hs : Coherent s) (ha : Aside s) (h : s.stop = some t) : Aside t := by
  have hkept : s.stopping.direct = true → t.connections.AllClosed := fun hd =>
    (stop_shrinks h).1.allClosed (ha.closed hd)
  unfold stop at h
  cases hst : s.stopping <;> simp only [hst] at h <;> rw [hst] at hkept
  case idle => cases h
  case set => cases h; exact ⟨(fun hd => by cases hd), ha.calls⟩
  case readConnection =>
    cases h
    refine ⟨fun hd => ?_, ha.calls⟩
    cases hconn : s.connection with
    | none => exact hs.only.allClosed (by rw [hconn]; rfl)
    | some c => simp [hconn, StopPc.direct] at hd
  case readIsOpen =>
    cases h
    refine ⟨fun hd => ?_, ha.calls⟩
    cases hopen : s.connected with
    | false => exact hs.only.allClosed hopen
    | true => simp [hopen, StopPc.direct] at hd
  case schedule =>
    cases hconn : s.connection with
    | none =>
      simp only [hconn] at h
      cases h
      exact ⟨fun _ => hs.only.allClosed (by rw [hconn]; rfl), ha.calls⟩
    | some c =>
      simp only [hconn] at h
      split at h <;> cases h
      · exact ⟨(fun hd => by cases hd), ha.calls⟩
      · next hclosed =>
        exact ⟨fun _ => hs.only.allClosed (by simpa [hconn, Connections.usable] using hclosed),
          ha.calls⟩
  case testConsuming | testChannel | testConnection | testIsOpen =>
    cases h
    exact ⟨fun _ => hkept rfl, ha.calls⟩
  -- the direct calls
  case stopConsuming | closeChannel | closeConnection =>
    have hclosed := ha.closed (by rw [hst]; rfl)
    cases h
    refine ⟨fun _ => hkept rfl, fun p hp => ?_⟩
    rcases List.mem_append.mp hp with hp | hp
    · exact ha.calls p hp
    · rw [List.mem_singleton.mp hp]
      first | exact closed_consuming hclosed | exact hclosed.usable

theorem aside_step {a : Action} (hs : Coherent s) (ha : Aside s) (hc : owned s a = true)
    (h : s.step self a = some t) : Aside t := by
  have hages := ages_step h
  have hcases := step_cases h
  cases a with
  | io raises runs draw =>
    obtain ⟨⟨hstopping, hdirect⟩, hfresh⟩ := io_leaves h
    refine ⟨fun hd => ?_, fun p hp => ha.calls p (hdirect ▸ hp)⟩
    rw [hstopping] at hd
    rcases hfresh with hfresh | ⟨⟨attempt, hpc⟩, rfl⟩
    · exact hages.allClosed hfresh (ha.closed hd)
    · simp [owned, hpc, hd] at hc
  | callStop =>
    obtain ⟨-, rfl⟩ := hcases
    exact ⟨(fun hd => by cases hd), ha.calls⟩
  | stop => exact aside_stop hs ha h
  | tick dt =>
    obtain ⟨-, rfl⟩ := hcases
    exact ha.shrinks (.same rfl rfl) rfl rfl
  | lose c =>
    cases h
    exact ha.shrinks ⟨rfl, fun _ => Connections.isOpen_of_close⟩ rfl rfl
  | loseChannel k =>
    cases h
    exact ha.shrinks (.same rfl rfl) rfl rfl

/-- Only `stop_listening` takes a step. -/
def onlyStop (_ : ListenerLoop) (a : Action) : Prop := a = .stop

/-- Where `stop_listening` goes on to call `close` on an open connection, while `run`
stays where it is. -/
def Closes (self : Config) (s : ListenerLoop) : Prop :=
  ∃ u, (machine self).Path onlyStop s u ∧ u.pc = s.pc ∧ (.closeConnection, true) ∈ u.direct

theorem Closes.before (hu : Closes self u) (h : s.stop = some u) : Closes self s := by
  obtain ⟨w, hw, hpc, hcall⟩ := hu
  refine ⟨w, Machine.Path.trans (Machine.Path.snoc (.refl s) rfl h) hw, ?_, hcall⟩
  exact hpc.trans (stop_shrinks h).2.1

/-- How far `stop_listening` is from its last call. -/
def StopPc.left : StopPc → Nat
  | .testConsuming => 6
  | .stopConsuming => 5
  | .testChannel => 4
  | .closeChannel => 3
  | .testConnection => 2
  | .testIsOpen => 1
  | _ => 0

theorem direct_goes (hcon : s.connected = true) (hd : s.stopping.direct = true) :
    s.stopping = .closeConnection ∨ ∃ u, s.stop = some u ∧ u.connected = true ∧
      u.stopping.direct = true ∧ u.stopping.left < s.stopping.left := by
  have hsome : s.connection.isSome = true := by
    obtain ⟨c, hconn, -⟩ := Connections.usable_iff.mp hcon
    rw [hconn]
    rfl
  have hshut : (s.shutChannel s.channel).connected = true := by
    unfold connected
    rw [shutChannel_connections, shutChannel_connection]
    exact hcon
  unfold stop
  cases hst : s.stopping <;> rw [hst] at hd
  case closeConnection => exact .inl rfl
  case testConsuming | testChannel =>
    refine .inr ⟨_, rfl, hcon, ?_⟩
    cases s.consuming <;> exact ⟨rfl, by simp [StopPc.left]⟩
  case stopConsuming => exact .inr ⟨_, rfl, hcon, rfl, by simp [StopPc.left]⟩
  case closeChannel => exact .inr ⟨_, rfl, hshut, rfl, by simp [StopPc.left]⟩
  case testConnection =>
    refine .inr ⟨_, rfl, hcon, ?_⟩
    rw [if_pos hsome]
    exact ⟨rfl, by simp [StopPc.left]⟩
  case testIsOpen =>
    refine .inr ⟨_, rfl, hcon, ?_⟩
    rw [if_pos hcon]
    exact ⟨rfl, by simp [StopPc.left]⟩
  all_goals cases hd

theorem closes_of_direct (self : Config) (hcon : s.connected = true)
    (hd : s.stopping.direct = true) : Closes self s := by
  induction hn : s.stopping.left using Nat.strong_induction_on generalizing s with
  | _ n ih =>
    rcases direct_goes hcon hd with hst | ⟨u, hu, hcon', hd', hlt⟩
    · obtain ⟨u, hu, hpc, hdirect⟩ : ∃ u, s.stop = some u ∧ u.pc = s.pc ∧
          u.direct = s.direct ++ [(.closeConnection, s.connected)] := by
        unfold stop
        rw [hst]
        exact ⟨_, rfl, rfl, rfl⟩
      refine ⟨u, Machine.Path.snoc (.refl s) rfl hu, hpc, ?_⟩
      rw [hdirect, hcon]
      exact List.mem_append_right _ (List.mem_singleton_self _)
    · exact (ih _ (hn ▸ hlt) hcon' hd' rfl).before hu

/-- After a step that is not `owned`, `stop_listening` goes on to close the new
connection itself. -/
theorem closes_of_not_owned {a : Action} (h : s.step self a = some t)
    (hc : owned s a = false) : Closes self t := by
  cases a with
  | io raises runs draw =>
    cases hpc : s.pc with
    | connecting attempt =>
      obtain ⟨rfl, hd⟩ : raises = false ∧ s.stopping.direct = true := by
        simpa [owned, hpc] using hc
      simp only [step, io, hpc] at h
      cases h
      have hcon : (s.connectOnce attempt false).connected = true := by
        simp [connectOnce, connected, Connections.usable, Connections.isOpen_connect]
      exact closes_of_direct self hcon hd
    | _ => simp [owned, hpc] at hc
  | _ => cases hc

end ListenerLoop

end MqAdapters
