import MqAdapters.Listener.Loop

/-!
# What a stop of the listener releases

`stop_listening` does not close the connection itself: it sets `stop_me` and
queues a request on the connection, for the loop to run.  The loop leaves as
soon as it finds `stop_me` set, and closes nothing on the way out, where
`SyncPublishBackend._run` has a cleanup.

* `io_cases`, `stop_cases`, `step_cases`: what a step of the loop is, one of
  `stop_listening`, and any step.
* `Released`: the only connection that can be open is the one in the field, and
  it is closed wherever the loop could leave without a further pump.
* `stop_releases`: when every step is `releasing`, no connection is open once
  `run` has returned.
* `releasing_iff`: a step that is not `releasing` is one after which `run` can
  return with an open connection.
-/

namespace MqAdapters

open Theory

namespace ListenerLoop

variable {self : Config} {s t : ListenerLoop}

/-- The loop tests `stop_me` next, with no pump before it leaves. -/
def Pc.tests : Pc → Bool
  | .top | .handler _ => true
  | _ => false

/-- Where the loop holds no open connection, whether it is stopped or not. -/
def Pc.apart : Pc → Bool
  | .begin | .retry _ | .connecting _ | .retryFailed _ | .retrySleep _ _ => true
  | .clearChannel _ | .clearConnection _ | .backoff _ | .sleep _ => true
  | .exited | .escaped _ => true
  | _ => false

/-- The request to stop and close is queued on the connection. -/
def requested (s : ListenerLoop) : Bool := s.connection.any s.queued.contains

/-- The connection is still released after this step: `stop_me` is not set just
before the loop tests it with an open connection, and once it is set, a pump of
an open connection runs the request, and setting up an open one succeeds. -/
def releasing (s : ListenerLoop) : Action → Bool
  | .stop => !(s.stopping == .set && s.connected && s.pc.tests)
  | .io raises runs _ => !(s.stopMe && s.connected) || match s.pc with
    | .openChannel | .setup => !raises
    | .pump => runs && s.requested
    | _ => true
  | _ => true

/-- The only connection that can be open is the one in the field, and it is not
where the loop holds none, or is about to find `stop_me` set. -/
structure Released (s : ListenerLoop) : Prop where
  only : s.connections.OnlyOpen s.connection
  apart : s.pc.apart = true → s.connections.AllClosed
  stopped : s.stopMe = true → s.pc.tests = true → s.connections.AllClosed

theorem released_initial : Released initial where
  only := Connections.AllClosed.onlyOpen fun _ => rfl
  apart := fun _ _ => rfl
  stopped := fun _ _ _ => rfl

/-! ## Steps that open nothing -/

/-- The connection stays, and none is opened. -/
structure Shrinks (s t : ListenerLoop) : Prop where
  connection : t.connection = s.connection
  isOpen : ∀ c, t.connections.isOpen c = true → s.connections.isOpen c = true

theorem Shrinks.same (hc : t.connection = s.connection) (h : t.connections = s.connections) :
    Shrinks s t := ⟨hc, fun _ hd => h ▸ hd⟩

theorem Shrinks.onlyOpen (h : Shrinks s t) (ho : s.connections.OnlyOpen s.connection) :
    t.connections.OnlyOpen t.connection := fun c hc => by
  rw [h.connection]
  exact ho c (h.isOpen c hc)

theorem Shrinks.allClosed (h : Shrinks s t) (ha : s.connections.AllClosed) :
    t.connections.AllClosed := fun c => by
  by_contra hc
  exact absurd (h.isOpen c (by simpa using hc)) (by simp [ha c])

/-- A thread that is not the loop keeps the invariant, unless it sets `stop_me`
too late. -/
theorem Released.shrinks (hr : Released s) (h : Shrinks s t) (hpc : t.pc = s.pc)
    (hstop : t.stopMe = true → s.stopMe = true ∨ (s.connected && s.pc.tests) = false) :
    Released t where
  only := h.onlyOpen hr.only
  apart hp := h.allClosed (hr.apart (hpc ▸ hp))
  stopped hs ht := by
    rw [hpc] at ht
    rcases hstop hs with hs | hc
    · exact h.allClosed (hr.stopped hs ht)
    · exact h.allClosed (hr.only.allClosed (by simpa [connected, ht] using hc))

theorem exists_shutChannel (s : ListenerLoop) (k : Option Nat) :
    ∃ channels, s.shutChannel k = { s with channels := channels } := by
  cases k <;> exact ⟨_, rfl⟩

theorem exists_dropChannel (s : ListenerLoop) :
    ∃ channels, s.dropChannel = { s with channels := channels } := by
  unfold dropChannel
  split
  · exact exists_shutChannel s s.channel
  · exact ⟨_, rfl⟩

theorem exists_dropConnection (s : ListenerLoop) (raises : Bool) : ∃ connections stats,
    s.dropConnection raises = { s with connections := connections, stats := stats } := by
  unfold dropConnection
  repeat' split
  all_goals exact ⟨_, _, rfl⟩

theorem exists_runQueued (s : ListenerLoop) (raises : Bool) :
    ∃ queued channels connections stats, s.runQueued raises = { s with
      queued := queued
      channels := channels
      connections := connections
      stats := stats } := by
  unfold runQueued
  repeat' split
  · exact ⟨_, _, _, _, rfl⟩
  · next c _ _ =>
    obtain ⟨channels, hdrop⟩ := exists_dropChannel { s with queued := s.queued.filter (· ≠ c) }
    obtain ⟨connections, stats, hclose⟩ := exists_dropConnection
      { s with queued := s.queued.filter (· ≠ c), channels := channels } raises
    rw [hdrop, hclose]
    exact ⟨_, _, _, _, rfl⟩
  · exact ⟨_, _, _, _, rfl⟩

/-- **What a step of the loop is**, by where it is. -/
theorem io_cases {raises runs : Bool} {draw : ℚ} (h : s.io self raises runs draw = some t) :
    match s.pc with
    | .begin => t = { s with running := true, pc := .top }
    | .top => (s.stopMe = true ∧ t = { s with pc := .exited }) ∨
        s.stopMe = false ∧ t = { s with pc := .checkConnection }
    | .checkConnection => (s.connected = true ∧ t = { s with pc := .checkChannel }) ∨
        s.connected = false ∧ t = { s with pc := .retry 1 }
    | .retry attempt => (s.stopMe = true ∧ t = { s with pc := .handler .outer }) ∨
        s.stopMe = false ∧ t = { s with pc := .connecting attempt }
    | .connecting attempt => (raises = true ∧ t = { s with pc := .retryFailed attempt }) ∨
        raises = false ∧ t = { s with
          connection := some s.connections.fresh
          connections := s.connections.connect
          stats := s.stats.incConnectionsOpened
          pc := .checkChannel }
    | .retryFailed attempt =>
      ((self.connectRetryPolicy.maxAttempts.any fun n => n ≤ (attempt : Int)) = true ∧
          t = { s with pc := .handler .outer }) ∨
        (self.connectRetryPolicy.maxAttempts.any fun n => n ≤ (attempt : Int)) = false ∧
          ((∃ e, self.connectRetryPolicy.pause (attempt + 1) draw = .error e ∧
              t = { s with escapes := s.escapes ++ [e], pc := .handler .outer }) ∨
            ∃ delay, self.connectRetryPolicy.pause (attempt + 1) draw = .ok delay ∧
              t = { s with pc := .retrySleep attempt (s.clock + delay) })
    | .retrySleep attempt until_ => until_ ≤ s.clock ∧ t = { s with pc := .retry (attempt + 1) }
    | .checkChannel => (s.consuming = true ∧ t = { s with pc := .pump }) ∨
        s.consuming = false ∧ t = { s with pc := .openChannel }
    | .openChannel =>
      ((raises = true ∨ s.connection = none) ∧ t = { s with pc := .handler .outer }) ∨
        ∃ c, raises = false ∧ s.connection = some c ∧ t = { s with
          channel := some s.channels.length
          channels := s.channels ++ [⟨c, true, 0⟩]
          pc := .setup }
    | .setup => (raises = true ∧ t = { s with pc := .handler .outer }) ∨
        raises = false ∧ t = s.setup false
    | .pump => t = s.pump runs raises
    | .handler level => (s.stopMe = true ∧ t = { s with pc := .top }) ∨
        s.stopMe = false ∧ t = { s with pc := .closeChannel level }
    | .closeChannel level => t = { s.dropChannel with pc := .closeConnection level }
    | .closeConnection level => t = { s.dropConnection raises with pc := .clearChannel level }
    | .clearChannel level => t = { s with channel := none, pc := .clearConnection level }
    | .clearConnection level => t = { s with connection := none, pc := .backoff level }
    | .backoff level =>
      (∃ e, self.loopRetryPolicy.pause (s.loopFailures + 2) draw = .error e ∧ t = { s with
          loopFailures := s.loopFailures + 1
          stats := s.stats.incReconnectAttempts
          escapes := s.escapes ++ [e]
          pc := match level with
            | .inner => .handler .outer
            | .outer => .escaped e }) ∨
        ∃ delay, self.loopRetryPolicy.pause (s.loopFailures + 2) draw = .ok delay ∧ t = { s with
          loopFailures := s.loopFailures + 1
          stats := s.stats.incReconnectAttempts
          pc := .sleep (s.clock + delay) }
    | .sleep until_ => until_ ≤ s.clock ∧ t = { s with pc := .top }
    | .exited | .escaped _ => False := by
  unfold io at h
  cases hpc : s.pc <;> simp only [hpc] at h ⊢
  case begin | closeChannel | closeConnection | clearChannel | clearConnection | pump =>
    exact (Option.some.inj h).symm
  case exited | escaped => cases h
  case top | retry | handler =>
    obtain rfl := Option.some.inj h
    cases hstop : s.stopMe
    · exact .inr ⟨rfl, by simp [retry, hstop]⟩
    · exact .inl ⟨rfl, by simp [retry, hstop]⟩
  case checkConnection =>
    obtain rfl := Option.some.inj h
    cases hconn : s.connected
    · exact .inr ⟨rfl, rfl⟩
    · exact .inl ⟨rfl, rfl⟩
  case checkChannel =>
    obtain rfl := Option.some.inj h
    cases hchan : s.consuming
    · exact .inr ⟨rfl, rfl⟩
    · exact .inl ⟨rfl, rfl⟩
  case connecting | setup =>
    obtain rfl := Option.some.inj h
    cases raises
    · exact .inr ⟨rfl, rfl⟩
    · exact .inl ⟨rfl, rfl⟩
  case retrySleep | sleep =>
    split at h
    · next hle => exact ⟨hle, (Option.some.inj h).symm⟩
    · cases h
  case retryFailed attempt =>
    split at h
    · obtain rfl := Option.some.inj h
      unfold retryFailed
      cases hmax : self.connectRetryPolicy.maxAttempts.any fun n => n ≤ (attempt : Int)
      · refine .inr ⟨rfl, ?_⟩
        cases hp : self.connectRetryPolicy.pause (attempt + 1) draw
        · exact .inl ⟨_, rfl, rfl⟩
        · exact .inr ⟨_, rfl, rfl⟩
      · exact .inl ⟨rfl, rfl⟩
    · cases h
  case openChannel =>
    obtain rfl := Option.some.inj h
    unfold openChannel
    cases hc : s.connection with
    | none => exact .inl ⟨.inr rfl, rfl⟩
    | some c =>
      cases raises
      · exact .inr ⟨c, rfl, rfl, rfl⟩
      · exact .inl ⟨.inl rfl, rfl⟩
  case backoff level =>
    split at h
    · obtain rfl := Option.some.inj h
      have hsum : ((s.loopFailures + 1 : Nat) : Int) + 1 = s.loopFailures + 2 := by omega
      unfold backoff
      dsimp only
      rw [hsum]
      cases hp : self.loopRetryPolicy.pause (s.loopFailures + 2) draw
      · exact .inl ⟨_, rfl, rfl⟩
      · exact .inr ⟨_, rfl, rfl⟩
    · cases h

/-- **What a step of `stop_listening` does**: it moves on, sets `stop_me`, closes the
channel, or closes the connection. -/
theorem stop_cases (h : s.stop = some t) :
    (∃ stopping queued direct,
      t = { s with stopping := stopping, queued := queued, direct := direct }) ∨
    (s.stopping = .set ∧ t = { s with stopMe := true, stopping := .readConnection }) ∨
    (∃ direct, s.stopping = .closeChannel ∧ t = { s.shutChannel s.channel with
      direct := direct
      stopping := .testConnection }) ∨
    ∃ c direct, s.stopping = .closeConnection ∧ s.connection = some c ∧ t = { s with
      connections := s.connections.close c
      direct := direct
      stopping := .idle } := by
  unfold stop at h
  cases hs : s.stopping <;> simp only [hs] at h
  case idle => cases h
  case set => cases h; exact .inr (.inl ⟨rfl, rfl⟩)
  case schedule =>
    repeat' split at h
    all_goals
      cases h
      exact .inl ⟨_, _, _, rfl⟩
  case closeChannel => cases h; exact .inr (.inr (.inl ⟨_, rfl, rfl⟩))
  case closeConnection =>
    cases h
    cases hc : s.connection with
    | none => exact .inl ⟨_, s.queued, _, rfl⟩
    | some c => exact .inr (.inr (.inr ⟨c, _, rfl, rfl, rfl⟩))
  all_goals
    cases h
    exact .inl ⟨_, _, _, rfl⟩

/-- **What a step is**: one of the loop, one of `stop_listening`, or of their
surroundings. -/
theorem step_cases {a : Action} (h : s.step self a = some t) :
    match a with
    | .io raises runs draw => s.io self raises runs draw = some t
    | .callStop => s.stopping = .idle ∧ t = { s with stopping := .set }
    | .stop => s.stop = some t
    | .tick dt => 0 ≤ dt ∧ t = { s with clock := s.clock + dt }
    | .lose c => t = { s with connections := s.connections.close c }
    | .loseChannel k => t = s.shutChannel (some k) := by
  cases a with
  | io | stop => exact h
  | callStop =>
    simp only [step, callStop] at h
    split at h
    · next hidle => exact ⟨hidle, (Option.some.inj h).symm⟩
    · cases h
  | tick dt =>
    simp only [step] at h
    split at h
    · next hdt => exact ⟨hdt, (Option.some.inj h).symm⟩
    · cases h
  | lose | loseChannel => exact (Option.some.inj h).symm

theorem stop_shrinks (h : s.stop = some t) : Shrinks s t ∧ t.pc = s.pc ∧
    (t.stopMe = s.stopMe ∨ s.stopping = .set) := by
  rcases stop_cases h with ⟨_, _, _, rfl⟩ | ⟨hset, rfl⟩ | ⟨_, -, rfl⟩ | ⟨c, _, -, -, rfl⟩
  · exact ⟨.same rfl rfl, rfl, .inl rfl⟩
  · exact ⟨.same rfl rfl, rfl, .inr hset⟩
  · obtain ⟨channels, hshut⟩ := exists_shutChannel s s.channel
    rw [hshut]
    exact ⟨.same rfl rfl, rfl, .inl rfl⟩
  · exact ⟨⟨rfl, fun _ hd => Connections.isOpen_of_close hd⟩, rfl, .inl rfl⟩

@[simp] theorem shutChannel_connections (k : Option Nat) :
    (s.shutChannel k).connections = s.connections := by
  obtain ⟨_, h⟩ := exists_shutChannel s k
  rw [h]

@[simp] theorem shutChannel_connection (k : Option Nat) :
    (s.shutChannel k).connection = s.connection := by
  obtain ⟨_, h⟩ := exists_shutChannel s k
  rw [h]

@[simp] theorem shutChannel_stopMe (k : Option Nat) :
    (s.shutChannel k).stopMe = s.stopMe := by
  obtain ⟨_, h⟩ := exists_shutChannel s k
  rw [h]

@[simp] theorem dropChannel_connections : s.dropChannel.connections = s.connections := by
  obtain ⟨_, h⟩ := exists_dropChannel s
  rw [h]

@[simp] theorem dropChannel_connection : s.dropChannel.connection = s.connection := by
  obtain ⟨_, h⟩ := exists_dropChannel s
  rw [h]

@[simp] theorem dropChannel_stopMe : s.dropChannel.stopMe = s.stopMe := by
  obtain ⟨_, h⟩ := exists_dropChannel s
  rw [h]

@[simp] theorem dropConnection_stopMe (raises : Bool) :
    (s.dropConnection raises).stopMe = s.stopMe := by
  obtain ⟨_, _, h⟩ := exists_dropConnection s raises
  rw [h]

@[simp] theorem runQueued_stopMe (raises : Bool) :
    (s.runQueued raises).stopMe = s.stopMe := by
  obtain ⟨_, _, _, _, h⟩ := exists_runQueued s raises
  rw [h]

/-- `dropConnection` closes the only connection that can be open. -/
theorem allClosed_dropConnection (ho : s.connections.OnlyOpen s.connection) (raises : Bool) :
    (s.dropConnection raises).connections.AllClosed := by
  unfold dropConnection
  rcases hc : s.connection with _ | c <;> rw [hc] at ho
  · exact ho.allClosed rfl
  · dsimp only
    split
    · exact ho.close
    · next hn => exact ho.allClosed (by simpa [Connections.usable] using hn)

/-- A pump that runs the request closes the connection. -/
theorem allClosed_runQueued (ho : s.connections.OnlyOpen s.connection)
    (hq : s.requested = true) (raises : Bool) : (s.runQueued raises).connections.AllClosed := by
  unfold runQueued
  unfold requested at hq
  rcases hc : s.connection with _ | c <;> rw [hc] at hq
  · exact absurd hq (by simp)
  · dsimp only
    rw [if_pos (by simpa using hq)]
    exact allClosed_dropConnection (by simpa [hc] using ho) raises

theorem shrinks_dropConnection (raises : Bool) : Shrinks s (s.dropConnection raises) := by
  unfold dropConnection
  repeat' split
  all_goals exact ⟨rfl, fun d hd => by first | exact hd | exact Connections.isOpen_of_close hd⟩

theorem shrinks_runQueued (raises : Bool) : Shrinks s (s.runQueued raises) := by
  unfold runQueued
  repeat' split
  · exact .same rfl rfl
  · obtain ⟨h, ho⟩ := shrinks_dropConnection
      (s := { s with queued := s.queued.filter (· ≠ _) }.dropChannel) raises
    exact ⟨by simpa using h, by simpa using ho⟩
  · exact .same rfl rfl

/-! ## The loop -/

/-- The loop goes on from where it holds no connection. -/
theorem Released.goes (hr : Released s) (hp : s.pc.apart = true)
    (hconn : t.connections = s.connections) : Released t := by
  have ha : t.connections.AllClosed := hconn ▸ hr.apart hp
  exact ⟨ha.onlyOpen, fun _ => ha, fun _ _ => ha⟩

/-- The loop goes on to where it may hold a connection. -/
theorem Released.holds (hr : Released s) (h : Shrinks s t) (ha : t.pc.apart = false)
    (ht : t.pc.tests = false) : Released t where
  only := h.onlyOpen hr.only
  apart hp := absurd hp (by simp [ha])
  stopped _ hp := absurd hp (by simp [ht])

/-- The loop goes on to a test of `stop_me`. -/
theorem Released.toTest (hr : Released s) (h : Shrinks s t) (ha : t.pc.apart = false)
    (hs : t.stopMe = true → t.connections.AllClosed) : Released t where
  only := h.onlyOpen hr.only
  apart hp := absurd hp (by simp [ha])
  stopped hstop _ := hs hstop

/-- Once `stop_me` is set, a call on an open connection is one of the good ones. -/
theorem Released.dark_or (hr : Released s) {good : Bool}
    (hc : (!(s.stopMe && s.connected) || good) = true) (hstop : s.stopMe = true) :
    s.connections.AllClosed ∨ good = true := by
  rcases hcon : s.connected with _ | _
  · exact .inl (hr.only.allClosed hcon)
  · exact .inr (by simpa [hstop, hcon] using hc)

theorem released_pump {runs raises : Bool} (hr : Released s)
    (hc : (!(s.stopMe && s.connected) || (runs && s.requested)) = true) :
    Released (s.pump runs raises) := by
  let u := if runs then s.runQueued raises else s
  have hshrinks : Shrinks s u := by
    cases runs
    · exact .same rfl rfl
    · exact shrinks_runQueued raises
  have hsame : u.stopMe = s.stopMe := by cases runs <;> simp [u]
  have hdark : s.stopMe = true → u.connections.AllClosed := by
    intro hstop
    rcases hr.dark_or hc hstop with ha | hgood
    · exact hshrinks.allClosed ha
    · obtain ⟨rfl, hq⟩ : runs = true ∧ s.requested = true := by simpa using hgood
      exact allClosed_runQueued hr.only hq raises
  show Released (if raises then { u with pc := .handler .inner }
    else { u with loopFailures := 0, pc := .top })
  split
  all_goals exact hr.toTest ⟨hshrinks.connection, hshrinks.isOpen⟩ rfl fun h => hdark (hsame ▸ h)

/-- **One step of the loop**: the only open connection stays in the field, and
none is open where the loop could leave. -/
theorem released_io {raises runs : Bool} {draw : ℚ} (hr : Released s)
    (hc : releasing s (.io raises runs draw) = true) (h : s.io self raises runs draw = some t) :
    Released t := by
  have hcases := io_cases h
  cases hpc : s.pc <;> simp only [hpc] at hcases <;> simp only [releasing, hpc] at hc
  case begin | clearChannel | clearConnection =>
    subst hcases
    exact hr.goes (by rw [hpc]; rfl) rfl
  case retry attempt =>
    obtain ⟨-, rfl⟩ | ⟨-, rfl⟩ := hcases
    all_goals exact hr.goes (by rw [hpc]; rfl) rfl
  case retryFailed attempt =>
    obtain ⟨-, rfl⟩ | ⟨-, ⟨e, -, rfl⟩ | ⟨delay, -, rfl⟩⟩ := hcases
    all_goals exact hr.goes (by rw [hpc]; rfl) rfl
  case backoff level =>
    obtain ⟨e, -, rfl⟩ | ⟨delay, -, rfl⟩ := hcases
    all_goals exact hr.goes (by rw [hpc]; rfl) rfl
  case retrySleep | sleep =>
    obtain ⟨-, rfl⟩ := hcases
    exact hr.goes (by rw [hpc]; rfl) rfl
  case connecting attempt =>
    have ha : s.connections.AllClosed := hr.apart (by rw [hpc]; rfl)
    obtain ⟨-, rfl⟩ | ⟨-, rfl⟩ := hcases
    · exact hr.goes (by rw [hpc]; rfl) rfl
    · exact ⟨ha.connect, fun hp => absurd hp (by simp [Pc.apart]),
        fun _ hp => absurd hp (by simp [Pc.tests])⟩
  case top =>
    obtain ⟨hstop, rfl⟩ | ⟨-, rfl⟩ := hcases
    · have ha : s.connections.AllClosed := hr.stopped hstop (by rw [hpc]; rfl)
      exact ⟨ha.onlyOpen, fun _ => ha, fun _ _ => ha⟩
    · exact hr.holds (.same rfl rfl) rfl rfl
  case checkConnection =>
    obtain ⟨-, rfl⟩ | ⟨hcon, rfl⟩ := hcases
    · exact hr.holds (.same rfl rfl) rfl rfl
    · have ha : s.connections.AllClosed := hr.only.allClosed hcon
      exact ⟨ha.onlyOpen, fun _ => ha, fun _ _ => ha⟩
  case checkChannel =>
    obtain ⟨-, rfl⟩ | ⟨-, rfl⟩ := hcases
    all_goals exact hr.holds (.same rfl rfl) rfl rfl
  case openChannel =>
    obtain ⟨hfails, rfl⟩ | ⟨c, -, -, rfl⟩ := hcases
    · refine hr.toTest (.same rfl rfl) rfl fun hstop => ?_
      rcases hfails with hraises | hnone
      · exact (hr.dark_or hc hstop).resolve_right (by simp [hraises])
      · exact hr.only.allClosed (by rw [hnone]; rfl)
    · exact hr.holds (.same rfl rfl) rfl rfl
  case setup =>
    obtain ⟨hraises, rfl⟩ | ⟨-, rfl⟩ := hcases
    · refine hr.toTest (.same rfl rfl) rfl fun hstop => ?_
      exact (hr.dark_or hc hstop).resolve_right (by simp [hraises])
    · exact hr.holds (.same rfl rfl) rfl rfl
  case pump =>
    subst hcases
    exact released_pump hr hc
  case handler level =>
    obtain ⟨hstop, rfl⟩ | ⟨-, rfl⟩ := hcases
    · exact hr.toTest (.same rfl rfl) rfl fun _ => hr.stopped hstop (by rw [hpc]; rfl)
    · exact hr.holds (.same rfl rfl) rfl rfl
  case closeChannel level =>
    subst hcases
    exact hr.holds (.same dropChannel_connection dropChannel_connections) rfl rfl
  case closeConnection level =>
    subst hcases
    have ha := allClosed_dropConnection hr.only raises
    exact ⟨ha.onlyOpen, fun _ => ha, fun _ _ => ha⟩

/-! ## Runs -/

theorem released_step {a : Action} (hr : Released s) (hc : releasing s a = true)
    (h : s.step self a = some t) : Released t := by
  have hcases := step_cases h
  cases a with
  | io raises runs draw => exact released_io hr hc h
  | callStop | tick =>
    obtain ⟨-, rfl⟩ := hcases
    exact hr.shrinks (.same rfl rfl) rfl .inl
  | stop =>
    obtain ⟨hshrinks, hpc, hstop⟩ := stop_shrinks h
    refine hr.shrinks hshrinks hpc fun ht => ?_
    rcases hstop with hstop | hset
    · exact .inl (hstop ▸ ht)
    · right
      rw [Bool.and_eq_false_iff]
      simpa [releasing, hset] using hc
  | lose c =>
    cases h
    exact hr.shrinks ⟨rfl, fun _ => Connections.isOpen_of_close⟩ rfl .inl
  | loseChannel k =>
    cases h
    exact hr.shrinks (.same rfl rfl) rfl .inl

theorem released_of_reach (h : (machine self).Reach (fun s a => releasing s a = true) s) :
    Released s :=
  Machine.Path.invariant h released_initial fun _ _ _ hc hr ht => released_step hr hc ht

/-- **A stop releases the connection**: when every step is `releasing`, no
connection the factory ever returned is open once `run` has returned. -/
theorem stop_releases (h : (machine self).Reach (fun s a => releasing s a = true) s)
    (hpc : s.pc = .exited) (c : Nat) : s.connections.isOpen c = false :=
  (released_of_reach h).apart (by rw [hpc]; rfl) c

/-- A loop that tests `stop_me` as it is set returns, and closes nothing. -/
theorem returns_of_tests (self : Config) (hstop : s.stopMe = true) (hpc : s.pc.tests = true) :
    ∃ t, (machine self).Path (fun s a => releasing s a = true) s t ∧ t.pc = .exited ∧
      t.connections = s.connections := by
  have htop : ∀ u : ListenerLoop, u.stopMe = true → u.pc = .top →
      (machine self).Path (fun s a => releasing s a = true) u { u with pc := .exited } := by
    intro u hu hp
    refine (Machine.Path.refl u).snoc (a := .io false false 0) ?_ ?_
    · simp [releasing, hp]
    · simp [machine, step, io, hp, hu]
  cases hp : s.pc with
  | top => exact ⟨_, htop s hstop hp, rfl, rfl⟩
  | handler level =>
    have hhead : (machine self).Path (fun s a => releasing s a = true) s
        { s with pc := .top } := by
      refine (Machine.Path.refl s).snoc (a := .io false false 0) ?_ ?_
      · simp [releasing, hp]
      · simp [machine, step, io, hp, hstop]
    exact ⟨_, hhead.trans (htop { s with pc := .top } hstop rfl), rfl, rfl⟩
  | _ => exact absurd hpc (by simp [hp, Pc.tests])

/-- A step that is not `releasing` leaves the loop about to find `stop_me` set,
with the connections as they were, one of them open. -/
theorem tests_of_not_releasing {a : Action} (hc : releasing s a = false)
    (h : s.step self a = some t) :
    s.connected = true ∧ t.stopMe = true ∧ t.pc.tests = true ∧ t.connections = s.connections := by
  cases a with
  | stop =>
    obtain ⟨⟨hset, hcon⟩, htests⟩ : (s.stopping = .set ∧ s.connected = true) ∧
        s.pc.tests = true := by simpa [releasing] using hc
    simp only [step, stop, hset] at h
    cases h
    exact ⟨hcon, rfl, htests, rfl⟩
  | io raises runs draw =>
    simp only [releasing, Bool.or_eq_false_iff, Bool.not_eq_false', Bool.and_eq_true] at hc
    obtain ⟨⟨hstop, hcon⟩, hc⟩ := hc
    refine ⟨hcon, ?_⟩
    simp only [step, io] at h
    cases hp : s.pc <;> simp only [hp] at h hc <;> try cases hc
    case openChannel =>
      obtain rfl : raises = true := by simpa using hc
      cases h
      unfold openChannel
      split <;> exact ⟨hstop, rfl, rfl⟩
    case setup =>
      obtain rfl : raises = true := by simpa using hc
      cases h
      exact ⟨hstop, rfl, rfl⟩
    case pump =>
      cases h
      have hidle : (if runs then s.runQueued raises else s) = s := by
        cases runs
        · rfl
        · have hq : s.requested = false := by simpa using hc
          unfold requested at hq
          rcases hconn : s.connection with _ | c <;> rw [hconn] at hq
          · simp [runQueued, hconn]
          · have hmem : c ∉ s.queued := by simpa using hq
            simp [runQueued, hconn, hmem]
      unfold pump
      rw [hidle]
      cases raises <;> exact ⟨hstop, rfl, rfl⟩
  | _ => exact absurd hc (by simp [releasing])

/-- **`releasing` is what it takes**: after a step that is not, `run` can return
with an open connection. -/
theorem releasing_iff {a : Action} (hs : (machine self).Reach (fun s a => releasing s a = true) s)
    (h : s.step self a = some t) :
    releasing s a = true ↔ ∀ u, (machine self).Path (fun s a => releasing s a = true) t u →
      u.pc = .exited → u.connections.AllClosed := by
  constructor
  · intro hc u hu hpc
    exact (released_of_reach (Machine.Path.trans (hs.snoc hc h) hu)).apart (by rw [hpc]; rfl)
  · intro hall
    by_contra hc
    obtain ⟨hcon, hstop, htests, hsame⟩ := tests_of_not_releasing (by simpa using hc) h
    obtain ⟨u, hu, hpc, hconn⟩ := returns_of_tests self hstop htests
    have ha : u.connections.usable s.connection = false := (hall u hu hpc).usable
    rw [hconn, hsame] at ha
    exact absurd hcon (by simp [connected, ha])

/-! ## A stop in time, and one too late -/

/-- A listener with the policies of `__init__`. -/
def defaultConfig : Config := ⟨connectRetryPolicy, loopRetryPolicy⟩

/-- `run` connects, sets up its consumer and is in its first pump. -/
def firstPump : List Action := List.replicate 8 (.io false false 0)

/-- `stop_listening` is called and queues its request. -/
def callsStop : List Action := [.callStop, .stop, .stop, .stop, .stop]

/-- The pump runs the request, and `run` returns. -/
def heard : ListenerLoop :=
  ((machine defaultConfig).runIn releasing initial
    (firstPump ++ callsStop ++ [.io false true 0, .io false false 0])).getD initial

theorem heard_reach :
    (machine defaultConfig).Reach (fun s a => releasing s a = true) heard :=
  Machine.path_of_runIn (show (machine defaultConfig).runIn releasing initial
    (firstPump ++ callsStop ++ [.io false true 0, .io false false 0]) = some heard from rfl)

theorem stop_releases_heard : heard.pc = .exited ∧ heard.connections.isOpen 0 = false :=
  ⟨rfl, stop_releases heard_reach rfl 0⟩

/-- The pump is over before the stop, and `run` returns without another. -/
def unheard : ListenerLoop :=
  ((machine defaultConfig).runIn (fun _ _ => true) initial
    (firstPump ++ [.io false false 0] ++ callsStop ++ [.io false false 0])).getD initial

/-- Both calls have returned, and the connection is open. -/
theorem stop_leaves_open : (machine defaultConfig).Reach Machine.anyStep unheard ∧
    unheard.pc = .exited ∧ unheard.stopping = .idle ∧ unheard.connections.isOpen 0 = true :=
  ⟨(Machine.path_of_runIn (c := fun _ _ => true)
    (show (machine defaultConfig).runIn (fun _ _ => true) initial
      (firstPump ++ [.io false false 0] ++ callsStop ++ [.io false false 0]) = some unheard
      from rfl)).mono fun _ _ _ => trivial, rfl, rfl, rfl⟩

end ListenerLoop

end MqAdapters
