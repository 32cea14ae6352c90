import MqAdapters.Listener.Stop
import MqAdapters.Theory.Attempts

/-!
# How often the listener tries again

`run` has two loops, one inside the other.  The inner one is `sync_retry`, which
gives up after `max_attempts` of `connect_retry_policy`; the outer one takes its
delays from `loop_retry_policy`, never reads `max_attempts`, and goes on to the
next `sync_retry`.

* `AtHead`: where a run of failures begins.
* `connects_atMost_iff`: how often a connection factory that raises every time is
  called.
* `failures_atMost_iff`: how often `process_data_events` or the set-up fails, when
  `process_data_events` raises every time.
-/

namespace MqAdapters

open Theory

namespace ListenerLoop

variable {self : Config} {s t : ListenerLoop} {n k failures : Nat}

/-- The loop is at its head, and nobody has asked it to stop. -/
structure AtHead (failures : Nat) (s : ListenerLoop) : Prop where
  pc : s.pc = .top
  failures : s.loopFailures = failures
  stopMe : s.stopMe = false

/-! ## What the other steps leave -/

@[simp] theorem dropChannel_loopFailures : s.dropChannel.loopFailures = s.loopFailures := by
  obtain ⟨_, h⟩ := exists_dropChannel s
  rw [h]

@[simp] theorem dropConnection_loopFailures (raises : Bool) :
    (s.dropConnection raises).loopFailures = s.loopFailures := by
  obtain ⟨_, _, h⟩ := exists_dropConnection s raises
  rw [h]

@[simp] theorem runQueued_loopFailures (raises : Bool) :
    (s.runQueued raises).loopFailures = s.loopFailures := by
  obtain ⟨_, _, _, _, h⟩ := exists_runQueued s raises
  rw [h]

theorem Shrinks.not_connected (h : Shrinks s t) (hs : s.connected = false) :
    t.connected = false := by
  by_contra hopen
  obtain ⟨c, hc, hopen⟩ := Connections.usable_iff.mp (by simpa [connected] using hopen)
  have hopen : s.connected = true :=
    Connections.usable_iff.mpr ⟨c, h.connection ▸ hc, h.isOpen c hopen⟩
  rw [hs] at hopen
  cases hopen

/-- What a step of another thread leaves of the loop. -/
structure Leaves (s t : ListenerLoop) : Prop where
  pc : t.pc = s.pc
  failures : t.loopFailures = s.loopFailures
  stopMe : s.stopMe = true → t.stopMe = true
  connected : s.connected = false → t.connected = false

theorem stop_leaves (h : s.stop = some t) : Leaves s t := by
  obtain ⟨hshrinks, hpc, -⟩ := stop_shrinks h
  suffices hrest : t.loopFailures = s.loopFailures ∧ (s.stopMe = true → t.stopMe = true) from
    ⟨hpc, hrest.1, hrest.2, hshrinks.not_connected⟩
  rcases stop_cases h with ⟨_, _, _, rfl⟩ | ⟨-, rfl⟩ | ⟨_, -, rfl⟩ | ⟨c, _, -, -, rfl⟩
  · exact ⟨rfl, id⟩
  · exact ⟨rfl, fun _ => rfl⟩
  · obtain ⟨channels, hshut⟩ := exists_shutChannel s s.channel
    rw [hshut]
    exact ⟨rfl, id⟩
  · exact ⟨rfl, id⟩

theorem leaves_step {a : Action} (h : s.step self a = some t)
    (ha : ∀ raises runs draw, a ≠ .io raises runs draw) : Leaves s t := by
  have hcases := step_cases h
  cases a with
  | io raises runs draw => exact absurd rfl (ha raises runs draw)
  | callStop | tick =>
    obtain ⟨-, rfl⟩ := hcases
    exact ⟨rfl, rfl, id, id⟩
  | stop => exact stop_leaves h
  | lose c =>
    cases h
    exact ⟨rfl, rfl, id, Shrinks.not_connected ⟨rfl, fun _ => Connections.isOpen_of_close⟩⟩
  | loseChannel k =>
    cases h
    exact ⟨rfl, rfl, id, Shrinks.not_connected (.same rfl rfl)⟩

/-! ## From a handler to the head -/

/-- Where the loop counts a failure and pauses, it goes on with what is left of `n`. -/
def GoesOn {ι : Type} (config : Config) (next : ι → Option ι) (n : Nat) (head : Nat → ι)
    (failures k : Nat) : Prop :=
  ∀ j, config.loopRetryPolicy.afterFailure failures = some j → Spare next n (head j) k

theorem afterFailure_of_pause {draw delay : ℚ}
    (h : self.loopRetryPolicy.pause (failures + 2) draw = .ok delay) :
    self.loopRetryPolicy.afterFailure failures = some (failures + 1) := by
  rw [RetryPolicy.afterFailure, RetryPolicy.not_stuck_of_pause h]
  rfl

/-- The loop makes a call there. -/
def Pc.calls : Pc → Bool
  | .connecting _ | .openChannel | .setup | .pump => true
  | _ => false

/-- Only the calls are restricted and counted. -/
structure Lets (c : ListenerLoop → Action → Prop) (p : ListenerLoop → Action → Bool) : Prop where
  quiet : ∀ s raises runs draw, s.pc.calls = false →
    c s (.io raises runs draw) ∧ p s (.io raises runs draw) = false
  clock : ∀ s dt, c s (.tick dt) ∧ p s (.tick dt) = false

variable {c : ListenerLoop → Action → Prop} {p : ListenerLoop → Action → Bool}
  {q : ListenerLoop × Nat}

theorem Lets.goes (self : Config) (hl : Lets c p)
    (h : ((machine self).counting p).Path (fun q a => c q.1 a) q (s, k))
    (hpc : s.pc.calls = false) (hs : s.io self false false 0 = some t) :
    ((machine self).counting p).Path (fun q a => c q.1 a) q (t, k) :=
  h.pass (.io false false 0) (hl.quiet s false false 0 hpc).1 (hl.quiet s false false 0 hpc).2 hs

/-- The clock moves on to the end of a sleep. -/
theorem Lets.waits (hl : Lets c p)
    (h : ((machine self).counting p).Path (fun q a => c q.1 a) q (s, k)) {dt : ℚ} (hdt : 0 ≤ dt) :
    ((machine self).counting p).Path (fun q a => c q.1 a) q
      ({ s with clock := s.clock + dt }, k) :=
  h.pass (.tick dt) (hl.clock s dt).1 (hl.clock s dt).2 (by simp [machine, step, hdt])

/-- A handler drops the channel and the connection. -/
theorem Lets.exists_backoff (hl : Lets c p) {level : Level}
    (h : ((machine self).counting p).Path (fun q a => c q.1 a) q (s, k))
    (hpc : s.pc = .handler level) (hstop : s.stopMe = false) :
    ∃ t, ((machine self).counting p).Path (fun q a => c q.1 a) q (t, k) ∧
      t.pc = .backoff level ∧ t.stopMe = false ∧ t.loopFailures = s.loopFailures ∧
      t.connection = none := by
  let closed : ListenerLoop :=
    { ({ s with pc := .closeChannel level } : ListenerLoop).dropChannel with
      pc := .closeConnection level }
  let cleared : ListenerLoop := { closed.dropConnection false with pc := .clearChannel level }
  have h := hl.goes self (t := { s with pc := .closeChannel level }) h (by rw [hpc]; rfl)
    (by simp [io, hpc, hstop])
  have h := hl.goes self (t := closed) h rfl (by simp [io, closed])
  have h := hl.goes self (t := cleared) h rfl (by simp [io, closed, cleared])
  have h := hl.goes self (t := { cleared with channel := none, pc := .clearConnection level }) h rfl
    (by simp [io, cleared])
  exact ⟨_, hl.goes self (t := { cleared with
      channel := none, connection := none, pc := .backoff level }) h rfl (by simp [io]),
    rfl, by simp [cleared, closed, hstop], by simp [cleared, closed], rfl⟩

/-- If the pause can be taken, the loop is at its head again. -/
theorem Lets.exists_head (hl : Lets c p) {level : Level} {i j : Nat}
    (h : ((machine self).counting p).Path (fun q a => c q.1 a) q (s, k))
    (hpc : s.pc = .backoff level) (hstop : s.stopMe = false) (hfail : s.loopFailures = i)
    (hconn : s.connection = none) (hj : self.loopRetryPolicy.afterFailure i = some j) :
    ∃ t, ((machine self).counting p).Path (fun q a => c q.1 a) q (t, k) ∧ AtHead j t ∧
      t.connected = false := by
  unfold RetryPolicy.afterFailure at hj
  split at hj
  · cases hj
  · next hstuck =>
    obtain rfl := Option.some.inj hj
    obtain ⟨delay, hdelay, hnn⟩ := RetryPolicy.pause_of_not_stuck (by simpa using hstuck) 0
    let asleep : ListenerLoop := { s with
      loopFailures := i + 1
      stats := s.stats.incReconnectAttempts
      pc := .sleep (s.clock + delay) }
    have h := hl.goes self (t := asleep) h (by rw [hpc]; rfl)
      (by simp [io, hpc, RetryPolicy.draws_zero, backoff, hfail, add_assoc, hdelay, asleep])
    have h := hl.waits h hnn
    exact ⟨_, hl.goes self (t := { asleep with clock := s.clock + delay, pc := .top }) h rfl
        (by simp [io, asleep]),
      ⟨rfl, rfl, hstop⟩, by simp [connected, asleep, hconn, Connections.usable]⟩

/-- The outer handler returns to the head, if it can pause. -/
theorem Lets.exists_handled (hl : Lets c p) {i j : Nat}
    (h : ((machine self).counting p).Path (fun q a => c q.1 a) q (s, k))
    (hpc : s.pc = .handler .outer) (hstop : s.stopMe = false) (hfail : s.loopFailures = i)
    (hj : self.loopRetryPolicy.afterFailure i = some j) :
    ∃ t, ((machine self).counting p).Path (fun q a => c q.1 a) q (t, k) ∧ AtHead j t ∧
      t.connected = false := by
  obtain ⟨u, hu, hpc, hstop, hsame, hconn⟩ := hl.exists_backoff h hpc hstop
  exact hl.exists_head hu hpc hstop (hsame.trans hfail) hconn hj

/-! ## The connection factory -/

/-- `sync_retry` calls the connection factory. -/
def connects (s : ListenerLoop) : Action → Bool
  | .io _ _ _ => match s.pc with
    | .connecting _ => true
    | _ => false
  | _ => false

/-- The connection factory raises. -/
def refusing (s : ListenerLoop) : Action → Prop
  | .io raises _ _ => match s.pc with
    | .connecting _ => raises = true
    | _ => True
  | _ => True

theorem refusing_lets : Lets refusing connects where
  quiet s raises runs draw hpc := by
    unfold refusing connects
    cases h : s.pc <;> rw [h] at hpc
    case connecting => cases hpc
    all_goals exact ⟨trivial, rfl⟩
  clock _ _ := ⟨trivial, rfl⟩

/-- `sync_retry` gives up after this attempt. -/
def givesUp (self : Config) (attempt : Nat) : Bool :=
  (self.connectRetryPolicy.maxAttempts.any fun n => n ≤ (attempt : Int)) ||
    self.connectRetryPolicy.stuck (attempt + 1)

/-- The failures and the attempt after a connect that failed. -/
def afterConnect (self : Config) (i : Nat × Nat) : Option (Nat × Nat) :=
  if givesUp self i.2 then (self.loopRetryPolicy.afterFailure i.1).map (·, 1)
  else some (i.1, i.2 + 1)

/-- In its `except`, `sync_retry` gives up or sleeps. -/
theorem retryFailed_cases {attempt : Nat} {raises runs : Bool} {draw : ℚ}
    (hpc : s.pc = .retryFailed attempt) (h : s.io self raises runs draw = some t) :
    (givesUp self attempt = true ∧ ∃ escapes,
      t = { s with escapes := escapes, pc := .handler .outer }) ∨
    (givesUp self attempt = false ∧ ∃ delay, 0 ≤ delay ∧
      t = { s with pc := .retrySleep attempt (s.clock + delay) }) := by
  have hcases := io_cases h
  simp only [hpc] at hcases
  obtain ⟨hmax, rfl⟩ | ⟨hmax, ⟨e, he, rfl⟩ | ⟨delay, hdelay, rfl⟩⟩ := hcases
  · exact .inl ⟨by simp [givesUp, hmax], _, rfl⟩
  · exact .inl ⟨by simp [givesUp, RetryPolicy.stuck_of_pause_error he], _, rfl⟩
  · exact .inr ⟨by simp [givesUp, hmax, RetryPolicy.not_stuck_of_pause hdelay], delay,
      RetryPolicy.pause_nonneg hdelay, rfl⟩

/-- `sync_retry` is before this attempt. -/
structure AtRetry (i : Nat × Nat) (s : ListenerLoop) : Prop where
  pc : s.pc = .retry i.2
  failures : s.loopFailures = i.1
  stopMe : s.stopMe = false

/-- The loop has no connection and goes on to its first attempt. -/
theorem AtHead.exists_retry (self : Config) (hs : AtHead failures s) (hconn : s.connected = false) :
    ∃ t, ((machine self).counting connects).Path (fun q a => refusing q.1 a) (s, k) (t, k) ∧
      AtRetry (failures, 1) t := by
  have h := refusing_lets.goes self (t := { s with pc := .checkConnection })
    (Machine.Path.refl (s, k)) (by rw [hs.pc]; rfl) (by simp [io, hs.pc, hs.stopMe])
  have hconn' : connected { s with pc := .checkConnection } = false := hconn
  exact ⟨_, refusing_lets.goes self (t := { s with pc := .retry 1 }) h rfl (by simp [io, hconn']),
    rfl, hs.failures, hs.stopMe⟩

/-- `sync_retry` makes its attempt. -/
theorem exists_connecting (self : Config) {i : Nat × Nat} (hs : AtRetry i s) :
    ((machine self).counting connects).Path (fun q a => refusing q.1 a) (s, k)
      ({ s with pc := .retryFailed i.2 }, k + 1) := by
  have h := refusing_lets.goes self (t := { s with pc := .connecting i.2 })
    (Machine.Path.refl (s, k)) (by rw [hs.pc]; rfl) (by simp [io, hs.pc, retry, hs.stopMe])
  exact h.count (.io true false 0) rfl rfl (by simp [machine, step, io, connectOnce])

/-- After the attempt there is another one, of this `sync_retry` or of the next. -/
theorem exists_connect {i j : Nat × Nat} (hs : AtRetry i s) (hj : afterConnect self i = some j) :
    ∃ t, ((machine self).counting connects).Path (fun q a => refusing q.1 a) (s, k) (t, k + 1) ∧
      AtRetry j t := by
  have h := exists_connecting self (k := k) hs
  obtain ⟨u, hu⟩ : ∃ u, io self { s with pc := .retryFailed i.2 } false false 0 = some u :=
    ⟨_, by simp [io, RetryPolicy.draws_zero]; rfl⟩
  have h := refusing_lets.goes self h rfl hu
  unfold afterConnect at hj
  rcases retryFailed_cases rfl hu with ⟨hup, escapes, rfl⟩ | ⟨hup, delay, hnn, rfl⟩
  · -- the loop counts the failure, and starts over
    rw [if_pos hup] at hj
    obtain ⟨l, hl, rfl⟩ := Option.map_eq_some_iff.mp hj
    obtain ⟨v, hv, hhead, hconn⟩ :=
      refusing_lets.exists_handled h rfl hs.stopMe hs.failures hl
    obtain ⟨t, ht, hretry⟩ := hhead.exists_retry self hconn
    exact ⟨t, hv.trans ht, hretry⟩
  · rw [hup] at hj
    obtain rfl := Option.some.inj hj
    have h := refusing_lets.waits h hnn
    exact ⟨_, refusing_lets.goes self
        (t := { s with clock := s.clock + delay, pc := .retry (i.2 + 1) }) h rfl (by simp [io]),
      rfl, hs.failures, hs.stopMe⟩

/-- The calls of the factory so far, where the loop makes `n` at most. -/
structure Connecting (config : Config) (n : Nat) (s : ListenerLoop) (k : Nat) : Prop where
  le : k ≤ n
  counts : match s.pc with
    | .top => s.stopMe = true ∨
        s.connected = false ∧ Spare (afterConnect config) n (s.loopFailures, 1) k
    | .checkConnection | .sleep _ =>
      s.connected = false ∧ Spare (afterConnect config) n (s.loopFailures, 1) k
    | .retry attempt | .connecting attempt =>
      Spare (afterConnect config) n (s.loopFailures, attempt) k
    | .retryFailed attempt => Spent (afterConnect config) n (s.loopFailures, attempt) k
    | .retrySleep attempt _ => Spare (afterConnect config) n (s.loopFailures, attempt + 1) k
    | .handler level => level = .outer ∧ (s.stopMe = true ∨
        GoesOn config (afterConnect config) n (·, 1) s.loopFailures k)
    | .closeChannel level | .closeConnection level | .clearChannel level
    | .clearConnection level => level = .outer ∧
        GoesOn config (afterConnect config) n (·, 1) s.loopFailures k
    | .backoff level => level = .outer ∧ s.connected = false ∧
        GoesOn config (afterConnect config) n (·, 1) s.loopFailures k
    | .exited | .escaped _ => True
    | _ => False

theorem connecting_leaves (hs : Connecting self n s k) (h : Leaves s t) :
    Connecting self n t k := by
  refine ⟨hs.le, ?_⟩
  have hcounts := hs.counts
  rw [h.pc, h.failures]
  cases hpc : s.pc <;> simp only [hpc] at hcounts ⊢
  case top => exact hcounts.imp h.stopMe fun hc => ⟨h.connected hc.1, hc.2⟩
  case checkConnection | sleep => exact ⟨h.connected hcounts.1, hcounts.2⟩
  case handler => exact ⟨hcounts.1, hcounts.2.imp_left h.stopMe⟩
  case backoff => exact ⟨hcounts.1, h.connected hcounts.2.1, hcounts.2.2⟩
  all_goals exact hcounts

theorem connecting_io {raises runs : Bool} {draw : ℚ} (hs : Connecting self n s k)
    (hc : refusing s (.io raises runs draw)) (h : s.io self raises runs draw = some t) :
    Connecting self n t (if connects s (.io raises runs draw) then k + 1 else k) := by
  have hcases := io_cases h
  have hcounts := hs.counts
  unfold refusing at hc
  unfold connects
  cases hpc : s.pc <;> simp only [hpc] at hcases hc hcounts ⊢
  case top =>
    obtain ⟨-, rfl⟩ | ⟨hstop, rfl⟩ := hcases
    · exact ⟨hs.le, trivial⟩
    · exact ⟨hs.le, hcounts.resolve_left (by simp [hstop])⟩
  case checkConnection =>
    obtain ⟨hconn, -⟩ | ⟨-, rfl⟩ := hcases
    · exact absurd (hconn.symm.trans hcounts.1) (by decide)
    · exact ⟨hs.le, hcounts.2⟩
  case retry attempt =>
    obtain ⟨hstop, rfl⟩ | ⟨-, rfl⟩ := hcases
    · exact ⟨hs.le, rfl, .inl hstop⟩
    · exact ⟨hs.le, hcounts⟩
  case connecting attempt =>
    obtain ⟨-, rfl⟩ | ⟨hraises, -⟩ := hcases
    · exact ⟨hcounts.spend.le, hcounts.spend⟩
    · exact absurd (hraises.symm.trans hc) (by decide)
  case retryFailed attempt =>
    obtain ⟨hup, escapes, rfl⟩ | ⟨hup, delay, -, rfl⟩ := retryFailed_cases hpc h
    · exact ⟨hs.le, rfl, .inr fun j hj => hcounts.goes (by simp [afterConnect, hup, hj])⟩
    · exact ⟨hs.le, hcounts.goes (by simp [afterConnect, hup])⟩
  case retrySleep attempt _ =>
    obtain ⟨-, rfl⟩ := hcases
    exact ⟨hs.le, hcounts⟩
  case handler level =>
    obtain ⟨hstop, rfl⟩ | ⟨hstop, rfl⟩ := hcases
    · exact ⟨hs.le, .inl hstop⟩
    · exact ⟨hs.le, hcounts.1, hcounts.2.resolve_left (by simp [hstop])⟩
  case closeChannel level | closeConnection level | clearChannel level =>
    subst hcases
    exact ⟨hs.le, by simpa using hcounts⟩
  case clearConnection level =>
    subst hcases
    exact ⟨hs.le, hcounts.1, rfl, hcounts.2⟩
  case backoff level =>
    obtain ⟨rfl, hconn, hgoes⟩ := hcounts
    obtain ⟨e, -, rfl⟩ | ⟨delay, hdelay, rfl⟩ := hcases
    · exact ⟨hs.le, trivial⟩
    · exact ⟨hs.le, hconn, hgoes _ (afterFailure_of_pause hdelay)⟩
  case sleep =>
    obtain ⟨-, rfl⟩ := hcases
    exact ⟨hs.le, .inr hcounts⟩

theorem connecting_step {a : Action} (hs : Connecting self n s k) (hc : refusing s a)
    (h : s.step self a = some t) : Connecting self n t (if connects s a then k + 1 else k) := by
  cases a with
  | io raises runs draw => exact connecting_io hs hc h
  | _ => exact connecting_leaves hs (leaves_step h (by simp))

/-- **A connection factory that raises every time** is called at most `n` times
exactly when, over all the attempts of one `sync_retry` after another, the delays run
out by then. -/
theorem connects_atMost_iff (self : Config) {failures : Nat} {s : ListenerLoop}
    (hs : AtHead failures s) (hconn : s.connected = false) (n : Nat) :
    (machine self).AtMost refusing connects n s ↔
      lasts (afterConnect self) n (failures, 1) = false := by
  constructor
  · intro hmost
    by_contra hlast
    obtain ⟨t, ht, hretry⟩ := hs.exists_retry self (k := 0) hconn
    exact Machine.not_atMost_of_lasts (fun i j s k hs hj => exists_connect hs hj)
      (fun i s k hs => ⟨_, exists_connecting self hs⟩) hretry (by simpa using hlast)
      (hmost.along ht)
  · intro hlast
    refine Machine.atMost_of_invariant (I := Connecting self n) ⟨Nat.zero_le n, ?_⟩
      (fun _ _ h => h.le) fun t a u k hc ht hu => connecting_step ht hc hu
    rw [hs.pc, hs.failures]
    exact .inr ⟨hconn, spare_zero.mpr hlast⟩

/-! ## The calls on the connection -/

/-- `process_data_events`, or the set-up before it, raises. -/
def fails (s : ListenerLoop) : Action → Bool
  | .io raises _ _ => match s.pc with
    | .openChannel | .setup | .pump => raises
    | _ => false
  | _ => false

/-- `process_data_events` raises. -/
def failing (s : ListenerLoop) : Action → Prop
  | .io raises _ _ => match s.pc with
    | .pump => raises = true
    | _ => True
  | _ => True

theorem failing_lets : Lets failing fails where
  quiet s raises runs draw hpc := by
    unfold failing fails
    cases h : s.pc <;> rw [h] at hpc
    case openChannel | setup | pump => cases hpc
    all_goals exact ⟨trivial, rfl⟩
  clock _ _ := ⟨trivial, rfl⟩

/-- The failures after a `process_data_events` that failed.  An exception of the
inner handler is a failure of its own. -/
def afterPump (self : Config) (failures : Nat) : Option Nat :=
  (self.loopRetryPolicy.afterFailure failures).or
    (self.loopRetryPolicy.afterFailure (failures + 1))

theorem afterPump_of_afterFailure {i j : Nat}
    (h : self.loopRetryPolicy.afterFailure i = some j) : afterPump self i = some j := by
  rw [afterPump, h, Option.some_or]

theorem afterPump_of_stuck {i : Nat} (h : self.loopRetryPolicy.stuck (i + 2) = true) :
    afterPump self i = self.loopRetryPolicy.afterFailure (i + 1) := by
  rw [afterPump, RetryPolicy.afterFailure, if_pos h, Option.none_or]

/-- The loop has a connection and a channel, and calls `process_data_events`. -/
structure AtPump (failures : Nat) (s : ListenerLoop) : Prop where
  pc : s.pc = .pump
  failures : s.loopFailures = failures
  stopMe : s.stopMe = false

/-- From its head the loop gets to `process_data_events`, if all else succeeds. -/
theorem AtHead.exists_pump (self : Config) (hs : AtHead failures s) :
    ∃ t, ((machine self).counting fails).Path (fun q a => failing q.1 a) (s, k) (t, k) ∧
      AtPump failures t := by
  have hcheck := failing_lets.goes self (t := { s with pc := .checkConnection })
    (Machine.Path.refl (s, k)) (by rw [hs.pc]; rfl) (by simp [io, hs.pc, hs.stopMe])
  -- a connection
  obtain ⟨u, hu, hpc, hconn, hfail, hstop⟩ :
      ∃ u, ((machine self).counting fails).Path (fun q a => failing q.1 a) (s, k) (u, k) ∧
        u.pc = .checkChannel ∧ u.connection.isSome ∧ u.loopFailures = failures ∧
        u.stopMe = false := by
    by_cases hconn : s.connected = true
    · have hconn' : connected { s with pc := .checkConnection } = true := hconn
      refine ⟨_, failing_lets.goes self (t := { s with pc := .checkChannel }) hcheck rfl
        (by simp [io, hconn']), rfl, ?_, hs.failures, hs.stopMe⟩
      obtain ⟨c, hc, -⟩ := Connections.usable_iff.mp hconn
      simp [hc]
    · have hconn' : connected { s with pc := .checkConnection } = false :=
        Bool.eq_false_of_not_eq_true hconn
      have h := failing_lets.goes self (t := { s with pc := .retry 1 }) hcheck rfl
        (by simp [io, hconn'])
      have h := failing_lets.goes self (t := { s with pc := .connecting 1 }) h rfl
        (by simp [io, retry, hs.stopMe])
      exact ⟨_, h.pass (.io false false 0) trivial rfl rfl, rfl, rfl, hs.failures, hs.stopMe⟩
  -- a channel
  by_cases hchan : u.consuming = true
  · exact ⟨_, failing_lets.goes self (t := { u with pc := .pump }) hu (by rw [hpc]; rfl)
      (by simp [io, hpc, hchan]), rfl, hfail, hstop⟩
  · obtain ⟨c, hc⟩ := Option.isSome_iff_exists.mp hconn
    have h := failing_lets.goes self (t := { u with pc := .openChannel }) hu (by rw [hpc]; rfl)
      (by simp [io, hpc, hchan])
    have h := h.pass (.io false false 0) trivial rfl
      (by simp only [machine, step, io, openChannel, hc]; rfl)
    exact ⟨_, h.pass (.io false false 0) trivial rfl rfl, rfl, hfail, hstop⟩

/-- `process_data_events` raises. -/
theorem exists_failed (self : Config) (hs : AtHead failures s) :
    ∃ t, ((machine self).counting fails).Path (fun q a => failing q.1 a) (s, k) (t, k + 1) ∧
      t.pc = .handler .inner ∧ t.loopFailures = failures ∧ t.stopMe = false := by
  obtain ⟨t, ht, hpump⟩ := hs.exists_pump self (k := k)
  exact ⟨{ t with pc := .handler .inner },
    ht.count (.io true false 0) (by simp [failing, hpump.pc]) (by simp [fails, hpump.pc])
      (by simp [machine, step, io, hpump.pc, pump]),
    rfl, hpump.failures, hpump.stopMe⟩

/-- If one of the two handlers can pause, the loop is at its head again. -/
theorem exists_failure {i j : Nat} (hs : AtHead i s) (hj : afterPump self i = some j) :
    ∃ t, ((machine self).counting fails).Path (fun q a => failing q.1 a) (s, k) (t, k + 1) ∧
      AtHead j t := by
  obtain ⟨t, ht, hpc, hfail, hstop⟩ := exists_failed self (k := k) hs
  obtain ⟨u, hu, hpc, hstop, hsame, hconn⟩ := failing_lets.exists_backoff ht hpc hstop
  have hfail : u.loopFailures = i := hsame.trans hfail
  by_cases hstuck : self.loopRetryPolicy.stuck (i + 2) = true
  · -- the inner handler raises, and the outer one is a failure later
    rw [afterPump_of_stuck hstuck] at hj
    obtain ⟨e, he⟩ := (RetryPolicy.pause_eq_error_iff_stuck _ _ 0).mpr hstuck
    let raised : ListenerLoop := { u with
      loopFailures := i + 1
      stats := u.stats.incReconnectAttempts
      escapes := u.escapes ++ [e]
      pc := .handler .outer }
    have h := failing_lets.goes self (t := raised) hu (by rw [hpc]; rfl)
      (by simp [io, hpc, RetryPolicy.draws_zero, backoff, hfail, add_assoc, he, raised])
    obtain ⟨v, hv, hhead, -⟩ := failing_lets.exists_handled h rfl hstop rfl hj
    exact ⟨v, hv, hhead⟩
  · obtain ⟨v, hv, hhead, -⟩ := failing_lets.exists_head (j := i + 1) hu hpc hstop hfail hconn
      (by simp [RetryPolicy.afterFailure, hstuck])
    obtain rfl : i + 1 = j := by simpa [afterPump, RetryPolicy.afterFailure, hstuck] using hj
    exact ⟨v, hv, hhead⟩

/-- What a handler has left of `n`. -/
def Handles (config : Config) (n failures k : Nat) : Level → Prop
  | .inner => Spent (afterPump config) n failures k
  | .outer => GoesOn config (afterPump config) n id failures k

theorem handles_of_spare (h : Spare (afterPump self) n failures k) :
    Handles self n failures k .outer := fun _ hj => h.skip (afterPump_of_afterFailure hj)

theorem handles_of_spent (h : Spent (afterPump self) n failures k) :
    Handles self n failures k .outer := fun _ hj => h.goes (afterPump_of_afterFailure hj)

/-- The failures so far, where there are `n` at most. -/
structure Failing (config : Config) (n : Nat) (s : ListenerLoop) (k : Nat) : Prop where
  le : k ≤ n
  counts : match s.pc with
    | .top => s.stopMe = true ∨ Spare (afterPump config) n s.loopFailures k
    | .handler level => s.stopMe = true ∨ Handles config n s.loopFailures k level
    | .closeChannel level | .closeConnection level | .clearChannel level
    | .clearConnection level | .backoff level => Handles config n s.loopFailures k level
    | .exited | .escaped _ => True
    | .begin => False
    | _ => Spare (afterPump config) n s.loopFailures k

theorem failing_leaves (hs : Failing self n s k) (h : Leaves s t) : Failing self n t k := by
  refine ⟨hs.le, ?_⟩
  have hcounts := hs.counts
  rw [h.pc, h.failures]
  cases hpc : s.pc <;> simp only [hpc] at hcounts ⊢
  case top | handler => exact hcounts.imp_left h.stopMe
  all_goals exact hcounts

theorem failing_io {raises runs : Bool} {draw : ℚ} (hs : Failing self n s k)
    (hc : failing s (.io raises runs draw)) (h : s.io self raises runs draw = some t) :
    Failing self n t (if fails s (.io raises runs draw) then k + 1 else k) := by
  have hcases := io_cases h
  have hcounts := hs.counts
  unfold failing at hc
  unfold fails
  cases hpc : s.pc <;> simp only [hpc] at hcases hc hcounts ⊢
  case top =>
    obtain ⟨-, rfl⟩ | ⟨hstop, rfl⟩ := hcases
    · exact ⟨hs.le, trivial⟩
    · exact ⟨hs.le, hcounts.resolve_left (by simp [hstop])⟩
  case checkConnection | checkChannel | connecting =>
    obtain ⟨-, rfl⟩ | ⟨-, rfl⟩ := hcases
    all_goals exact ⟨hs.le, hcounts⟩
  case retry attempt =>
    obtain ⟨-, rfl⟩ | ⟨-, rfl⟩ := hcases
    · exact ⟨hs.le, .inr (handles_of_spare hcounts)⟩
    · exact ⟨hs.le, hcounts⟩
  case retryFailed attempt =>
    obtain ⟨-, escapes, rfl⟩ | ⟨-, delay, -, rfl⟩ := retryFailed_cases hpc h
    · exact ⟨hs.le, .inr (handles_of_spare hcounts)⟩
    · exact ⟨hs.le, hcounts⟩
  case retrySleep attempt _ =>
    obtain ⟨-, rfl⟩ := hcases
    exact ⟨hs.le, hcounts⟩
  case openChannel =>
    obtain ⟨-, rfl⟩ | ⟨c, rfl, -, rfl⟩ := hcases
    · cases raises
      · exact ⟨hs.le, .inr (handles_of_spare hcounts)⟩
      · exact ⟨hcounts.spend.le, .inr (handles_of_spent hcounts.spend)⟩
    · exact ⟨hs.le, hcounts⟩
  case setup =>
    obtain ⟨rfl, rfl⟩ | ⟨rfl, rfl⟩ := hcases
    · exact ⟨hcounts.spend.le, .inr (handles_of_spent hcounts.spend)⟩
    · exact ⟨hs.le, hcounts⟩
  case pump =>
    subst hcases hc
    have hsame : (s.pump runs true).loopFailures = s.loopFailures := by
      cases runs <;> simp [pump]
    refine ⟨hcounts.spend.le, ?_⟩
    rw [hsame]
    exact .inr hcounts.spend
  case handler level =>
    obtain ⟨hstop, rfl⟩ | ⟨hstop, rfl⟩ := hcases
    · exact ⟨hs.le, .inl hstop⟩
    · exact ⟨hs.le, hcounts.resolve_left (by simp [hstop])⟩
  case closeChannel level | closeConnection level | clearChannel level | clearConnection level =>
    subst hcases
    exact ⟨hs.le, by simpa using hcounts⟩
  case backoff level =>
    obtain ⟨e, he, rfl⟩ | ⟨delay, hdelay, rfl⟩ := hcases
    · have hstuck := RetryPolicy.stuck_of_pause_error he
      cases level with
      | inner =>
        exact ⟨hs.le, .inr fun j hj => hcounts.goes (by rw [afterPump_of_stuck hstuck, hj]; rfl)⟩
      | outer => exact ⟨hs.le, trivial⟩
    · have hgoes := afterFailure_of_pause hdelay
      cases level with
      | inner => exact ⟨hs.le, hcounts.goes (afterPump_of_afterFailure hgoes)⟩
      | outer => exact ⟨hs.le, hcounts _ hgoes⟩
  case sleep =>
    obtain ⟨-, rfl⟩ := hcases
    exact ⟨hs.le, .inr hcounts⟩

theorem failing_step {a : Action} (hs : Failing self n s k) (hc : failing s a)
    (h : s.step self a = some t) : Failing self n t (if fails s a then k + 1 else k) := by
  cases a with
  | io raises runs draw => exact failing_io hs hc h
  | _ => exact failing_leaves hs (leaves_step h (by simp))

/-- **Where `process_data_events` raises every time**, it or the set-up before it
fails at most `n` times exactly when the delays run out by then. -/
theorem failures_atMost_iff (self : Config) {failures : Nat} {s : ListenerLoop}
    (hs : AtHead failures s) (n : Nat) :
    (machine self).AtMost failing fails n s ↔ lasts (afterPump self) n failures = false := by
  constructor
  · intro hmost
    by_contra hlast
    exact Machine.not_atMost_of_lasts (fun i j s k hs hj => exists_failure hs hj)
      (fun i s k hs => (exists_failed self hs).imp fun _ h => h.1) hs (by simpa using hlast) hmost
  · intro hlast
    refine Machine.atMost_of_invariant (I := Failing self n) ⟨Nat.zero_le n, ?_⟩
      (fun _ _ h => h.le) fun t a u k hc ht hu => failing_step ht hc hu
    rw [hs.pc, hs.failures]
    exact .inr (spare_zero.mpr hlast)

end ListenerLoop

end MqAdapters
