import MqAdapters.PublishBackend.Model
import MqAdapters.Theory.Consumer

/-!
# The backend as a consumer of its queue

`view s` forgets everything about the backend but its queue, its stop event and
what its I/O thread is doing with the requests.  `view_step` says that every
step of the backend is a step of `Theory.Consumer` or none at all, so what holds
of the consumer holds of the backend.

What a step can do is said once: `io_cases` and `step_cases` forwards, `source_of_io`
backwards, and `thread_cases` for what concerns the I/O thread alone.
-/

namespace MqAdapters

open Python Theory

namespace PublishBackend

variable {self : Config}

/-! ## Two invariants of the model -/

/-- The pool is full wherever a channel may be used. -/
def Pooled (self : Config) (th : Thread) : Prop :=
  match th.pc with
  | .connected | .get _ _ | .pump _ | .serve _ => self.poolSize ≤ th.channels.length
  | _ => True

/-- Between the two tests of `start` and its last line no thread is alive. -/
structure Wellformed (config : Config) (s : PublishBackend) : Prop where
  pooled : ∀ th, s.thread = some th → Pooled config th
  starting : s.starting.isSome = true → s.alive = false

theorem one_le_poolSize (self : Config) : 1 ≤ self.poolSize := by
  unfold Config.poolSize
  omega

/-- A full pool has a channel for the next request. -/
theorem channel_ne_none {th : Thread} (hp : self.poolSize ≤ th.channels.length) :
    th.channels[th.chIndex % th.channels.length]? ≠ none := by
  have hlen : th.chIndex % th.channels.length < th.channels.length :=
    Nat.mod_lt _ (Nat.lt_of_lt_of_le (one_le_poolSize self) hp)
  simp [List.getElem?_eq_getElem hlen]

/-- What `_run` is doing with the requests. -/
def phase (s : PublishBackend) : Phase PublishRequest :=
  match s.thread with
  | none => .out
  | some th => match th.pc with
    | .top => .head
    | .connect | .openChannels | .confirm _ | .connected | .get _ _ => .taking
    | .pump item | .serve item => match item with
      | .heartbeat => .head
      | .sentinel => .woken
      | .request r => .holding r
    | .handler | .sleep _ => .failed
    | .cleanup _ | .dead _ => .out

def view (s : PublishBackend) : Consumer PublishRequest where
  queue := s.queue
  flag := s.stopEvent
  phase := s.phase
  accepted := s.accepted
  passed := s.passed.map (·.request)

/-- What a step of the I/O thread is to the consumer. -/
def ioMove (self : Config) (s : PublishBackend) (th : Thread) (raises : Bool) (draw : ℚ) :
    Option (Consumer.Move PublishRequest) :=
  match th.pc with
  | .top => some .look
  | .connect => if raises && !s.connections.usable th.conn then some .fail else none
  | .openChannels =>
    if raises && decide (th.channels.length < self.poolSize) then some .fail else none
  | .get _ _ => match s.queue with
    | [] => some .skip
    | _ => some .take
  | .serve .sentinel => some .leave
  | .serve (.request _) => some (.pass !raises)
  | .handler =>
    match self.reconnectRetryPolicy.pause (s.reconnectFailures + 2) draw with
    | .error _ => some .crash
    | .ok _ => none
  | .sleep _ => some .recover
  | _ => none

/-- What a step of the backend is to the consumer. -/
def move (self : Config) (s : PublishBackend) : Action → Option (Consumer.Move PublishRequest)
  | .io raises draw => s.thread.bind fun th => ioMove self s th raises draw
  | .start => match s.starting with
    | some .clear => some .clear
    | some .spawn => some .spawn
    | none => none
  | .stop i => (s.stopping[i]?).bind fun call => match call.pc with
    | .set => some .raise
    | .putNowait | .put _ => if self.full s.queue then none else some .wake
    | _ => none
  | .publish i => (s.publishing[i]?).map .put
  | _ => none

section

variable {s t : PublishBackend} {th : Thread} {raises : Bool} {draw : ℚ}

/-- Closing changes the connections and the counters only. -/
theorem exists_closeConnection (s : PublishBackend) (conn : Option Nat) (raises : Bool) :
    ∃ cs stats, s.closeConnection conn raises = { s with connections := cs, stats := stats } := by
  unfold closeConnection
  repeat' split
  all_goals exact ⟨_, _, rfl⟩

/-- What each step of the I/O thread does, and when. -/
theorem io_cases (h : s.io self th raises draw = some t) :
    match th.pc with
    | .top => t = s.goto th (if s.stopEvent then .cleanup .stopEvent else .connect)
    | .connect =>
        (s.connections.usable th.conn = true ∧ t = s.goto th .openChannels) ∨
        (s.connections.usable th.conn = false ∧ raises = true ∧ t = s.goto th .handler) ∨
        (s.connections.usable th.conn = false ∧ raises = false ∧ t = { s with
          connections := s.connections.connect
          connectionsCreated := s.connectionsCreated + 1
          stats := s.stats.incConnectionsOpened
          thread := some { th with
            pc := .openChannels
            conn := some s.connections.fresh
            channels := []
            chIndex := 0 } })
    | .openChannels =>
        (self.poolSize ≤ th.channels.length ∧ t = s.goto th .connected) ∨
        (th.channels.length < self.poolSize ∧ raises = true ∧ t = s.goto th .handler) ∨
        (th.channels.length < self.poolSize ∧ raises = false ∧ self.confirmDelivery = true ∧
          t = { s with channelsCreated := s.channelsCreated + 1 }.goto th
            (.confirm ⟨th.conn.getD 0, s.channelsCreated⟩)) ∨
        (th.channels.length < self.poolSize ∧ raises = false ∧ self.confirmDelivery = false ∧
          t = { s with channelsCreated := s.channelsCreated + 1 }.goto
            { th with channels := th.channels ++ [(⟨th.conn.getD 0, s.channelsCreated⟩ : Channel)] }
            .openChannels)
    | .confirm ch =>
        t = { s with stats := if raises then s.stats.incPublishFailed else s.stats }.goto
          { th with channels := th.channels ++ [ch] } .openChannels
    | .connected => ∃ timeout : Option ℚ,
        timeout = (if 0 < self.heartbeat then some (max 0 (th.nextHeartbeat - s.clock)) else none) ∧
          t = { s with reconnectFailures := 0 }.goto th (.get timeout (timeout.map (s.clock + ·)))
    | .get _ deadline =>
        (∃ r q, s.queue = some r :: q ∧ t = { s with queue := q }.goto th (.pump (.request r))) ∨
        (∃ q, s.queue = none :: q ∧ t = { s with queue := q }.goto th (.pump .sentinel)) ∨
        (s.queue = [] ∧ (deadline.any fun d => d ≤ s.clock) = true ∧
          t = s.goto th (.pump .heartbeat))
    | .pump item =>
        ((self.heartbeat ≤ 0 ∨ s.clock < th.nextHeartbeat) ∧ t = s.goto th (.serve item)) ∨
        (0 < self.heartbeat ∧ th.nextHeartbeat ≤ s.clock ∧
          t = { s with
            pumped := if s.connections.usable th.conn then s.pumped + 1 else s.pumped }.goto
              { th with nextHeartbeat := s.clock + self.heartbeat } (.serve item))
    | .serve .heartbeat => t = s.goto th .top
    | .serve .sentinel => t = s.goto th (.cleanup .sentinel)
    | .serve (.request r) =>
        (th.channels[th.chIndex % th.channels.length]? = none ∧ t = s.goto th .handler) ∨
        ∃ ch, th.channels[th.chIndex % th.channels.length]? = some ch ∧
          t = { s with
            passed := s.passed ++ [(⟨r, ch, raises⟩ : PublishCall)]
            stats := if raises then s.stats.incPublishFailed else s.stats.incPublished }.goto
              { th with chIndex := th.chIndex + 1 } (if raises then .handler else .top)
    | .handler => self.reconnectRetryPolicy.draws draw = true ∧
        t = { s with
          reconnectFailures := s.reconnectFailures + 1
          stats := s.stats.incReconnectAttempts }.goto th
            (match self.reconnectRetryPolicy.pause (s.reconnectFailures + 2) draw with
            | .error e => .dead (.escaped e)
            | .ok delay => .sleep (s.clock + delay))
    | .sleep until_ => until_ ≤ s.clock ∧
        t = (s.closeConnection th.conn raises).goto { th with
          conn := none
          channels := []
          nextHeartbeat := s.clock + self.heartbeat } .top
    | .cleanup exit => t = (s.closeConnection th.conn raises).goto th (.dead exit)
    | .dead _ => False := by
  unfold io at h
  cases hpc : th.pc <;> simp only [hpc] at h ⊢
  case top => exact (Option.some.inj h).symm
  case connect =>
    obtain rfl := Option.some.inj h
    unfold connect
    cases hu : s.connections.usable th.conn <;> cases raises <;> simp
  case openChannels =>
    obtain rfl := Option.some.inj h
    unfold openChannels
    split
    · next hl =>
      cases raises
      · right; right
        cases hconf : self.confirmDelivery
        · exact .inr ⟨hl, rfl, rfl, by simp [goto]⟩
        · exact .inl ⟨hl, rfl, rfl, by simp⟩
      · exact .inr (.inl ⟨hl, rfl, rfl⟩)
    · next hl => exact .inl ⟨not_lt.mp hl, rfl⟩
  case confirm ch =>
    obtain rfl := Option.some.inj h
    cases raises <;> rfl
  case connected =>
    obtain rfl := Option.some.inj h
    unfold connected
    dsimp only
    split <;> exact ⟨_, rfl, rfl⟩
  case get timeout deadline =>
    unfold get at h
    split at h
    · next r q hq => exact .inl ⟨r, q, hq, (Option.some.inj h).symm⟩
    · next q hq => exact .inr (.inl ⟨q, hq, (Option.some.inj h).symm⟩)
    · next hq =>
      split at h
      · next hd => exact .inr (.inr ⟨hq, hd, (Option.some.inj h).symm⟩)
      · cases h
  case pump item =>
    obtain rfl := Option.some.inj h
    unfold pump
    split
    · next hb => exact .inl ⟨.inl hb, rfl⟩
    · next hb =>
      split
      · next hn => exact .inl ⟨.inr hn, rfl⟩
      · next hn =>
        refine .inr ⟨not_le.mp hb, not_lt.mp hn, ?_⟩
        dsimp only
        split <;> rfl
  case serve item =>
    obtain rfl := Option.some.inj h
    unfold serve
    cases item with
    | heartbeat | sentinel => rfl
    | request r =>
      dsimp only
      split
      · next hch => exact .inl ⟨hch, rfl⟩
      · next ch hch => exact .inr ⟨ch, hch, by cases raises <;> rfl⟩
  case handler =>
    split at h
    · next hd =>
      obtain rfl := Option.some.inj h
      have hsum : ((s.reconnectFailures + 1 : Nat) : Int) + 1 = s.reconnectFailures + 2 := by
        omega
      refine ⟨hd, ?_⟩
      unfold handler
      dsimp only
      rw [hsum]
      cases self.reconnectRetryPolicy.pause (s.reconnectFailures + 2) draw <;> rfl
    · cases h
  case sleep until_ =>
    unfold wake at h
    split at h
    · next hu =>
      obtain rfl := Option.some.inj h
      obtain ⟨cs, stats, hclose⟩ := exists_closeConnection s th.conn raises
      exact ⟨hu, by simp only [hclose, goto]⟩
    · cases h
  case cleanup exit => exact (Option.some.inj h).symm
  case dead => cases h

/-- What the I/O thread leaves alone. -/
structure IoFrame (s t : PublishBackend) : Prop where
  stopEvent : t.stopEvent = s.stopEvent
  starting : t.starting = s.starting
  stopping : t.stopping = s.stopping
  publishing : t.publishing = s.publishing
  threads : t.threads = s.threads
  clock : t.clock = s.clock
  accepted : t.accepted = s.accepted

theorem io_frame (h : s.io self th raises draw = some t) : IoFrame s t := by
  have hc := io_cases h
  have hclose : ∀ {th' pc}, t = (s.closeConnection th.conn raises).goto th' pc → IoFrame s t := by
    rintro th' pc rfl
    obtain ⟨cs, stats, hcl⟩ := exists_closeConnection s th.conn raises
    rw [hcl]
    constructor <;> rfl
  cases hpc : th.pc <;> simp only [hpc] at hc
  case top | confirm => obtain rfl : t = _ := hc; constructor <;> rfl
  case connect =>
    obtain ⟨-, rfl⟩ | ⟨-, -, rfl⟩ | ⟨-, -, rfl⟩ := hc
    all_goals constructor <;> rfl
  case openChannels =>
    obtain ⟨-, rfl⟩ | ⟨-, -, rfl⟩ | ⟨-, -, -, rfl⟩ | ⟨-, -, -, rfl⟩ := hc
    all_goals constructor <;> rfl
  case connected => obtain ⟨timeout, -, rfl⟩ := hc; constructor <;> rfl
  case get =>
    obtain ⟨r, q, -, rfl⟩ | ⟨q, -, rfl⟩ | ⟨-, -, rfl⟩ := hc
    all_goals constructor <;> rfl
  case pump =>
    obtain ⟨-, rfl⟩ | ⟨-, -, rfl⟩ := hc
    all_goals constructor <;> rfl
  case serve item =>
    rcases item with _ | _ | r
    · obtain rfl : t = _ := hc; constructor <;> rfl
    · obtain rfl : t = _ := hc; constructor <;> rfl
    · obtain ⟨-, rfl⟩ | ⟨ch, -, rfl⟩ := hc
      all_goals constructor <;> rfl
  case handler => obtain ⟨-, rfl⟩ := hc; constructor <;> rfl
  case sleep => exact hclose hc.2
  case cleanup => exact hclose hc

/-- **Where the I/O thread comes from**, at the places that few steps lead to. -/
theorem source_of_io {th' : Thread} (h : s.io self th raises draw = some t)
    (ht : t.thread = some th') :
    match th'.pc with
    | .confirm _ => self.confirmDelivery = true
    | .serve item => th.pc = .pump item
    | .sleep until_ => self.reconnectRetryPolicy.draws draw = true ∧
        ∃ delay, self.reconnectRetryPolicy.pause (s.reconnectFailures + 2) draw = .ok delay ∧
          until_ = t.clock + delay
    | .cleanup exit => exit = .stopEvent ∨ exit = .sentinel
    | .dead exit => th.pc = .cleanup exit ∨ th.pc = .handler ∧ ∃ e, exit = .escaped e ∧
        self.reconnectRetryPolicy.pause (s.reconnectFailures + 2) draw = .error e
    | _ => True := by
  have hc := io_cases h
  cases hpc : th.pc <;> simp only [hpc] at hc
  case top =>
    obtain rfl : t = _ := hc
    obtain rfl := Option.some.inj ht
    cases s.stopEvent
    · trivial
    · exact .inl rfl
  case connect =>
    obtain ⟨-, rfl⟩ | ⟨-, -, rfl⟩ | ⟨-, -, rfl⟩ := hc
    all_goals
      obtain rfl := Option.some.inj ht
      trivial
  case openChannels =>
    obtain ⟨-, rfl⟩ | ⟨-, -, rfl⟩ | ⟨-, -, hconf, rfl⟩ | ⟨-, -, -, rfl⟩ := hc
    all_goals obtain rfl := Option.some.inj ht
    · trivial
    · trivial
    · exact hconf
    · trivial
  case connected =>
    obtain ⟨timeout, -, rfl⟩ := hc
    obtain rfl := Option.some.inj ht
    trivial
  case get =>
    obtain ⟨r, q, -, rfl⟩ | ⟨q, -, rfl⟩ | ⟨-, -, rfl⟩ := hc
    all_goals
      obtain rfl := Option.some.inj ht
      trivial
  case pump =>
    obtain ⟨-, rfl⟩ | ⟨-, -, rfl⟩ := hc
    all_goals
      obtain rfl := Option.some.inj ht
      rfl
  case serve item =>
    rcases item with _ | _ | r
    · obtain rfl : t = _ := hc
      obtain rfl := Option.some.inj ht
      trivial
    · obtain rfl : t = _ := hc
      obtain rfl := Option.some.inj ht
      exact .inr rfl
    · obtain ⟨-, rfl⟩ | ⟨ch, -, rfl⟩ := hc
      all_goals obtain rfl := Option.some.inj ht
      · trivial
      · cases raises <;> trivial
  case handler =>
    obtain ⟨hdraw, rfl⟩ := hc
    obtain rfl := Option.some.inj ht
    cases hp : self.reconnectRetryPolicy.pause (s.reconnectFailures + 2) draw with
    | error e => exact .inr ⟨rfl, e, rfl, rfl⟩
    | ok delay => exact ⟨hdraw, delay, rfl, rfl⟩
  case sleep =>
    obtain ⟨-, rfl⟩ := hc
    obtain rfl := Option.some.inj ht
    trivial
  case confirm =>
    obtain rfl : t = _ := hc
    obtain rfl := Option.some.inj ht
    trivial
  case cleanup =>
    obtain rfl : t = _ := hc
    obtain rfl := Option.some.inj ht
    exact .inl rfl

/-- The I/O thread takes from the queue in `get` only. -/
theorem queue_of_io (h : s.io self th raises draw = some t) : t.queue = s.queue ∨
    (∃ timeout deadline, th.pc = .get timeout deadline) ∧ ∃ i, s.queue = i :: t.queue := by
  have hc := io_cases h
  obtain ⟨cs, stats, hclose⟩ := exists_closeConnection s th.conn raises
  cases hpc : th.pc <;> simp only [hpc] at hc
  case top | confirm => obtain rfl : t = _ := hc; exact .inl rfl
  case connect =>
    obtain ⟨-, rfl⟩ | ⟨-, -, rfl⟩ | ⟨-, -, rfl⟩ := hc
    all_goals exact .inl rfl
  case openChannels =>
    obtain ⟨-, rfl⟩ | ⟨-, -, rfl⟩ | ⟨-, -, -, rfl⟩ | ⟨-, -, -, rfl⟩ := hc
    all_goals exact .inl rfl
  case connected => obtain ⟨timeout, -, rfl⟩ := hc; exact .inl rfl
  case get timeout deadline =>
    obtain ⟨r, q, hq, rfl⟩ | ⟨q, hq, rfl⟩ | ⟨-, -, rfl⟩ := hc
    · exact .inr ⟨⟨timeout, deadline, rfl⟩, _, hq⟩
    · exact .inr ⟨⟨timeout, deadline, rfl⟩, _, hq⟩
    · exact .inl rfl
  case pump =>
    obtain ⟨-, rfl⟩ | ⟨-, -, rfl⟩ := hc
    all_goals exact .inl rfl
  case serve item =>
    rcases item with _ | _ | r
    · obtain rfl : t = _ := hc; exact .inl rfl
    · obtain rfl : t = _ := hc; exact .inl rfl
    · obtain ⟨-, rfl⟩ | ⟨ch, -, rfl⟩ := hc
      all_goals exact .inl rfl
  case handler => obtain ⟨-, rfl⟩ := hc; exact .inl rfl
  case sleep => obtain ⟨-, rfl⟩ := hc; rw [hclose]; exact .inl rfl
  case cleanup => rw [hc, hclose]; exact .inl rfl

/-- What each step does, and when. -/
theorem step_cases {a : Action} (h : s.step self a = some t) :
    match a with
    | .io raises draw => ∃ th, s.thread = some th ∧ s.io self th raises draw = some t
    | .callStart => s.starting = none ∧
        ((s.alive = true ∧ t = s) ∨ (s.alive = false ∧ t = { s with starting := some .clear }))
    | .start =>
        (s.starting = some .clear ∧
          t = { s with stopEvent := false, starting := some .spawn }) ∨
        (s.starting = some .spawn ∧ t = { s with
          starting := none
          threads := s.threads + 1
          thread := some ⟨.top, none, [], 0, s.clock⟩ })
    | .callStop wait => t = s.callStop wait
    | .stop i => s.stop self i = some t
    | .callPublish body routingKey => t = s.callPublish self body routingKey
    | .publish i => ∃ r, s.publishing[i]? = some r ∧ t = { s with
        publishing := s.publishing.eraseIdx i
        queue := s.queue ++ [some r]
        accepted := s.accepted ++ [r] }
    | .tick dt => 0 ≤ dt ∧ t = { s with clock := s.clock + dt }
    | .lose c => t = { s with connections := s.connections.close c } := by
  cases a with
  | io raises draw => exact Option.bind_eq_some_iff.mp h
  | callStart =>
    simp only [step, callStart] at h
    split at h
    · exact absurd h (by simp)
    · next hs =>
      split at h
      · next hal => exact ⟨hs, Or.inl ⟨hal, (Option.some.inj h).symm⟩⟩
      · next hal => exact ⟨hs, Or.inr ⟨by simpa using hal, (Option.some.inj h).symm⟩⟩
  | start =>
    simp only [step, start] at h
    split at h
    · exact absurd h (by simp)
    · next hs => exact Or.inl ⟨hs, (Option.some.inj h).symm⟩
    · next hs => exact Or.inr ⟨hs, (Option.some.inj h).symm⟩
  | stop i => exact h
  | publish i =>
    obtain ⟨r, hr, h⟩ := Option.bind_eq_some_iff.mp h
    split at h
    · exact absurd h (by simp)
    · exact ⟨r, hr, (Option.some.inj h).symm⟩
  | tick dt =>
    simp only [step] at h
    split at h
    · next hdt => exact ⟨hdt, (Option.some.inj h).symm⟩
    · exact absurd h (by simp)
  | callStop | callPublish | lose => exact (Option.some.inj h).symm

/-- A step is what the consumer makes of it. -/
abbrev Follows (s t : PublishBackend) (m : Option (Consumer.Move PublishRequest)) : Prop :=
  (Consumer.machine PublishRequest).Goes (view s) (view t) m

theorem io_view (hth : s.thread = some th) (hp : Pooled self th)
    (h : s.io self th raises draw = some t) : Follows s t (ioMove self s th raises draw) := by
  have hc := io_cases h
  obtain ⟨cs, stats, hclose⟩ := exists_closeConnection s th.conn raises
  unfold Pooled at hp
  cases hpc : th.pc <;> simp only [hpc] at hc hp
  case top =>
    obtain rfl : t = _ := hc
    cases hs : s.stopEvent <;> simp [ioMove, hpc, hs, view, phase, hth, Consumer.step, goto]
  case connect =>
    obtain ⟨hu, rfl⟩ | ⟨hu, rfl, rfl⟩ | ⟨hu, rfl, rfl⟩ := hc
    all_goals simp [ioMove, hpc, hu, view, phase, hth, Consumer.step, goto]
  case openChannels =>
    obtain ⟨hl, rfl⟩ | ⟨hl, rfl, rfl⟩ | ⟨hl, rfl, -, rfl⟩ | ⟨hl, rfl, -, rfl⟩ := hc
    · simp [ioMove, hpc, not_lt.mpr hl, view, phase, hth, goto]
    all_goals simp [ioMove, hpc, hl, view, phase, hth, Consumer.step, goto]
  case confirm =>
    obtain rfl : t = _ := hc
    simp [ioMove, hpc, view, phase, hth, goto]
  case connected =>
    obtain ⟨timeout, -, rfl⟩ := hc
    simp [ioMove, hpc, view, phase, hth, goto]
  case get =>
    obtain ⟨r, q, hq, rfl⟩ | ⟨q, hq, rfl⟩ | ⟨hq, -, rfl⟩ := hc
    all_goals simp [ioMove, hpc, view, phase, hth, hq, Consumer.step, goto]
  case pump item =>
    obtain ⟨-, rfl⟩ | ⟨-, -, rfl⟩ := hc
    all_goals cases item <;> simp [ioMove, hpc, view, phase, hth, goto]
  case serve item =>
    rcases item with _ | _ | r
    · obtain rfl : t = _ := hc
      simp [ioMove, hpc, view, phase, hth, goto]
    · obtain rfl : t = _ := hc
      simp [ioMove, hpc, view, phase, hth, Consumer.step, goto]
    · obtain ⟨hch, -⟩ | ⟨ch, -, rfl⟩ := hc
      · exact absurd hch (channel_ne_none hp)
      · cases raises <;> simp [ioMove, hpc, view, phase, hth, Consumer.step, goto]
  case handler =>
    obtain ⟨-, rfl⟩ := hc
    rcases hd : self.reconnectRetryPolicy.pause (s.reconnectFailures + 2) draw with e | delay
    all_goals simp [ioMove, hpc, hd, view, phase, hth, Consumer.step, goto]
  case sleep =>
    obtain ⟨-, rfl⟩ := hc
    simp [ioMove, hpc, hclose, view, phase, hth, Consumer.step, goto]
  case cleanup =>
    obtain rfl : t = _ := hc
    simp [ioMove, hpc, hclose, view, phase, hth, goto]

/-- The I/O thread goes on, with its pool full where it has to be. -/
theorem io_pooled (hp : Pooled self th) (h : s.io self th raises draw = some t) :
    th.alive = true ∧ ∃ th', t.thread = some th' ∧ Pooled self th' := by
  have hc := io_cases h
  unfold Pooled at hp
  cases hpc : th.pc <;> simp only [hpc] at hc hp
  all_goals refine ⟨by simp [Thread.alive, hpc], ?_⟩
  case top =>
    obtain rfl : t = _ := hc
    cases s.stopEvent <;> exact ⟨_, rfl, trivial⟩
  case confirm | cleanup => obtain rfl : t = _ := hc; exact ⟨_, rfl, trivial⟩
  case connect =>
    obtain ⟨-, rfl⟩ | ⟨-, -, rfl⟩ | ⟨-, -, rfl⟩ := hc
    all_goals exact ⟨_, rfl, trivial⟩
  case openChannels =>
    obtain ⟨hl, rfl⟩ | ⟨-, -, rfl⟩ | ⟨-, -, -, rfl⟩ | ⟨-, -, -, rfl⟩ := hc
    · exact ⟨_, rfl, hl⟩
    all_goals exact ⟨_, rfl, trivial⟩
  case connected => obtain ⟨timeout, -, rfl⟩ := hc; exact ⟨_, rfl, hp⟩
  case get =>
    obtain ⟨r, q, -, rfl⟩ | ⟨q, -, rfl⟩ | ⟨-, -, rfl⟩ := hc
    all_goals exact ⟨_, rfl, hp⟩
  case pump =>
    obtain ⟨-, rfl⟩ | ⟨-, -, rfl⟩ := hc
    all_goals exact ⟨_, rfl, hp⟩
  case serve item =>
    rcases item with _ | _ | r
    · obtain rfl : t = _ := hc; exact ⟨_, rfl, trivial⟩
    · obtain rfl : t = _ := hc; exact ⟨_, rfl, trivial⟩
    · obtain ⟨-, rfl⟩ | ⟨ch, -, rfl⟩ := hc
      · exact ⟨_, rfl, trivial⟩
      · cases raises <;> exact ⟨_, rfl, trivial⟩
  case handler =>
    obtain ⟨-, rfl⟩ := hc
    cases self.reconnectRetryPolicy.pause (s.reconnectFailures + 2) draw <;>
      exact ⟨_, rfl, trivial⟩
  case sleep => obtain ⟨-, rfl⟩ := hc; exact ⟨_, rfl, trivial⟩

/-- **A call of `stop`** sets the event, puts the sentinel, and moves on; nothing
else changes. -/
theorem exists_stop {i : Nat} (h : s.stop self i = some t) : ∃ stopEvent queue stopping,
    t = { s with stopEvent := stopEvent, queue := queue, stopping := stopping } := by
  obtain ⟨⟨pc, wait, mark⟩, -, h⟩ := Option.bind_eq_some_iff.mp h
  cases pc <;> simp only at h
  all_goals
    repeat' split at h
    all_goals
      cases h
      try exact ⟨_, _, _, rfl⟩

/-- What a step leaves alone that is none of the I/O thread and starts no thread. -/
structure Aside (s t : PublishBackend) : Prop where
  thread : t.thread = s.thread
  channelsCreated : t.channelsCreated = s.channelsCreated
  passed : t.passed = s.passed
  clock : s.clock ≤ t.clock
  connections : t.connections = s.connections ∨ ∃ c, t.connections = s.connections.close c

/-- **Every step** is one of the I/O thread, starts a thread, or leaves the thread
alone. -/
theorem thread_cases {a : Action} (h : s.step self a = some t) :
    (∃ raises draw th, a = .io raises draw ∧ s.thread = some th ∧
      s.io self th raises draw = some t) ∨
    (a = .start ∧ s.starting = some .spawn ∧ t = { s with
      starting := none
      threads := s.threads + 1
      thread := some ⟨.top, none, [], 0, s.clock⟩ }) ∨
    (∀ raises draw, a ≠ .io raises draw) ∧ Aside s t := by
  have hc := step_cases h
  cases a with
  | io raises draw =>
    obtain ⟨th, hth, h⟩ := hc
    exact .inl ⟨raises, draw, th, rfl, hth, h⟩
  | callStart =>
    obtain ⟨-, ⟨-, rfl⟩ | ⟨-, rfl⟩⟩ := hc
    all_goals exact .inr (.inr ⟨by simp, rfl, rfl, rfl, le_refl _, .inl rfl⟩)
  | start =>
    obtain ⟨-, rfl⟩ | ⟨hs, rfl⟩ := hc
    · exact .inr (.inr ⟨by simp, rfl, rfl, rfl, le_refl _, .inl rfl⟩)
    · exact .inr (.inl ⟨rfl, hs, rfl⟩)
  | stop i =>
    obtain ⟨_, _, _, rfl⟩ := exists_stop hc
    exact .inr (.inr ⟨by simp, rfl, rfl, rfl, le_refl _, .inl rfl⟩)
  | callStop | callPublish =>
    obtain rfl : t = _ := hc
    exact .inr (.inr ⟨by simp, rfl, rfl, rfl, le_refl _, .inl rfl⟩)
  | publish i =>
    obtain ⟨r, -, rfl⟩ := hc
    exact .inr (.inr ⟨by simp, rfl, rfl, rfl, le_refl _, .inl rfl⟩)
  | tick dt =>
    obtain ⟨hdt, rfl⟩ := hc
    exact .inr (.inr ⟨by simp, rfl, rfl, rfl, le_add_of_nonneg_right hdt, .inl rfl⟩)
  | lose c =>
    obtain rfl : t = _ := hc
    exact .inr (.inr ⟨by simp, rfl, rfl, rfl, le_refl _, .inr ⟨c, rfl⟩⟩)

theorem wellformed_step (self : Config) (s : PublishBackend) (a : Action) (t : PublishBackend)
    (hw : Wellformed self s) (h : s.step self a = some t) : Wellformed self t := by
  obtain ⟨hp, hst⟩ := hw
  have hc := step_cases h
  cases a with
  | io raises draw =>
    obtain ⟨th, hth, h⟩ := hc
    obtain ⟨halive, th', hth', hp'⟩ := io_pooled (hp th hth) h
    refine ⟨fun u hu => ?_, fun hs => ?_⟩
    · rw [hth', Option.some.injEq] at hu
      exact hu ▸ hp'
    · have := hst ((io_frame h).starting ▸ hs)
      simp [alive, hth, halive] at this
  | callStart =>
    obtain ⟨-, ⟨-, rfl⟩ | ⟨hal, rfl⟩⟩ := hc
    · exact ⟨hp, hst⟩
    · exact ⟨hp, fun _ => hal⟩
  | start =>
    obtain ⟨hs, rfl⟩ | ⟨hs, rfl⟩ := hc
    · exact ⟨hp, fun _ => hst (by simp [hs])⟩
    · exact ⟨fun u hu => Option.some.inj hu ▸ trivial, fun hs => absurd hs (by simp)⟩
  | stop i =>
    obtain ⟨_, _, _, rfl⟩ := exists_stop h
    exact ⟨hp, hst⟩
  | callStop | callPublish | lose => obtain rfl : t = _ := hc; exact ⟨hp, hst⟩
  | publish i => obtain ⟨r, -, rfl⟩ := hc; exact ⟨hp, hst⟩
  | tick dt => obtain ⟨-, rfl⟩ := hc; exact ⟨hp, hst⟩

/-- Between its first test and its last line, `start` finds the thread out of its
loop. -/
theorem phase_of_not_alive (h : s.alive = false) : s.phase = .out := by
  unfold phase
  rcases hth : s.thread with _ | th
  · rfl
  · simp only [alive, hth, Option.any_some, Thread.alive] at h
    split at h
    · next hpc => simp only [hpc]
    · exact absurd h (by simp)

theorem stop_view {i : Nat} (h : s.stop self i = some t) : Follows s t (move self s (.stop i)) := by
  obtain ⟨call, hcall, h⟩ := Option.bind_eq_some_iff.mp h
  obtain ⟨pc, wait, mark⟩ := call
  cases pc with
  | set =>
    obtain rfl := Option.some.inj h
    simp [move, hcall, view, phase, stopAt, Consumer.step]
  | putNowait =>
    obtain rfl := Option.some.inj h
    cases hf : self.full s.queue <;>
      simp [move, hcall, hf, view, phase, stopAt, Consumer.step]
  | put deadline =>
    cases hf : self.full s.queue
    · simp only [hf] at h
      obtain rfl := Option.some.inj h
      simp [move, hcall, hf, view, phase, stopAt, Consumer.step]
    · simp only [hf, Bool.not_true, Bool.false_eq_true, if_false] at h
      split at h
      · obtain rfl := Option.some.inj h
        simp [move, hcall, hf, view, phase, stopAt]
      · exact absurd h (by simp)
  | check | wait | join =>
    simp only at h
    repeat' split at h
    all_goals
      cases h
      try simp [move, hcall, view, phase, stopAt, stopDone]

theorem view_step (self : Config) (s : PublishBackend) (a : Action) (t : PublishBackend)
    (hw : Wellformed self s) (h : s.step self a = some t) : Follows s t (move self s a) := by
  have hc := step_cases h
  cases a with
  | io raises draw =>
    obtain ⟨th, hth, h⟩ := hc
    simpa only [move, hth, Option.bind_some] using io_view hth (hw.pooled th hth) h
  | callStart =>
    obtain ⟨-, ⟨-, rfl⟩ | ⟨-, rfl⟩⟩ := hc
    all_goals exact rfl
  | start =>
    obtain ⟨hs, rfl⟩ | ⟨hs, rfl⟩ := hc
    all_goals
      have hout := phase_of_not_alive (hw.starting (by simp [hs]))
      simp only [move, hs, Machine.goes_some, view, hout, Consumer.machine_step, Consumer.step,
        Option.some.injEq, Consumer.mk.injEq, and_self, and_true, true_and]
    · exact hout.symm
    · rfl
  | stop i => exact stop_view h
  | callStop | callPublish | lose => obtain rfl : t = _ := hc; exact rfl
  | publish i =>
    obtain ⟨r, hr, rfl⟩ := hc
    simp [move, hr, view, phase, Consumer.step]
  | tick dt => obtain ⟨-, rfl⟩ := hc; exact rfl

end

end PublishBackend

end MqAdapters
