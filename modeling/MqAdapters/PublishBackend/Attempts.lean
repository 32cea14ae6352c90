import MqAdapters.PublishBackend.Stop
import MqAdapters.Theory.Attempts

/-!
# How often the backend tries to connect

The loop takes its delays from `reconnect_retry_policy` and never reads
`max_attempts`.  So it gives up only where a delay raises inside the `except`
handler.

* `AtHead`: where a run of failed connects begins.
* `connects_atMost_iff`: how often a connection factory that raises every time is
  called.
-/

namespace MqAdapters

open Theory

namespace PublishBackend

variable {self : Config} {s t : PublishBackend} {n k failures : Nat}

/-- The loop calls the connection factory. -/
def connects (s : PublishBackend) : Action → Bool
  | .io _ _ => s.thread.any fun th => match th.pc with
    | .connect => !s.connections.usable th.conn
    | _ => false
  | _ => false

/-- The connection factory raises; this is the loop of one `start`. -/
def refusing (s : PublishBackend) (a : Action) : Prop :=
  match a with
  | .io raises _ => s.connects a = true → raises = true
  | .start => False
  | _ => True

/-- The loop is at its head without a connection, and nobody has asked it to stop. -/
structure AtHead (failures : Nat) (s : PublishBackend) : Prop where
  thread : ∃ th, s.thread = some th ∧ th.pc = .top ∧ s.connections.usable th.conn = false
  failures : s.reconnectFailures = failures
  stopEvent : s.stopEvent = false

theorem closeConnection_of_not_usable {conn : Option Nat}
    (h : s.connections.usable conn = false) (raises : Bool) :
    s.closeConnection conn raises = s := by
  cases conn with
  | none => rfl
  | some c =>
    have hc : s.connections.isOpen c = false := h
    simp [closeConnection, hc]

/-! ## A round that fails -/

/-- From its head the loop calls the factory, which raises. -/
theorem exists_connect (self : Config) (hs : AtHead failures s) :
    ∃ th : Thread, s.connections.usable th.conn = false ∧
      ((machine self).counting connects).Path (fun q a => refusing q.1 a) (s, k)
        ({ s with thread := some { th with pc := .handler } }, k + 1) := by
  obtain ⟨⟨th, hth, hpc, hconn⟩, -, hstop⟩ := hs
  refine ⟨th, hconn, ?_⟩
  have htop : ((machine self).counting connects).Path (fun q a => refusing q.1 a) (s, k)
      ({ s with thread := some { th with pc := .connect } }, k) :=
    (Machine.Path.refl (s, k)).pass (.io true 0) (fun _ => rfl) (by simp [connects, hth, hpc])
      (by simp [machine, step, hth, io, hpc, hstop, goto])
  exact htop.count (.io true 0) (fun _ => rfl) (by simp [connects, hconn])
    (by simp [machine, step, io, connect, hconn, goto])

/-- If the pause can be taken, the loop is at its head again. -/
theorem exists_round {i j : Nat} (hs : AtHead i s)
    (hj : self.reconnectRetryPolicy.afterFailure i = some j) :
    ∃ t, ((machine self).counting connects).Path (fun q a => refusing q.1 a) (s, k) (t, k + 1) ∧
      AtHead j t := by
  obtain ⟨th, hconn, hpath⟩ := exists_connect self (k := k) hs
  obtain ⟨-, hfail, hstop⟩ := hs
  unfold RetryPolicy.afterFailure at hj
  split at hj
  · cases hj
  · next hstuck =>
    obtain rfl := Option.some.inj hj
    obtain ⟨delay, hdelay, hnn⟩ := RetryPolicy.pause_of_not_stuck (by simpa using hstuck) 0
    let asleep : PublishBackend := { s with
      reconnectFailures := i + 1
      stats := s.stats.incReconnectAttempts
      thread := some { th with pc := .sleep (s.clock + delay) } }
    have hpath := hpath.pass (u := asleep) (.io true 0) (fun _ => rfl) (by simp [connects])
      (by simp [machine, step, io, handler, RetryPolicy.draws_zero, hfail, add_assoc, hdelay, goto,
        asleep])
    have hpath := hpath.pass (u := { asleep with clock := s.clock + delay }) (.tick delay)
      trivial rfl (by simp [machine, step, hnn, asleep])
    let u : Thread := { th with
      pc := .top
      conn := none
      channels := []
      nextHeartbeat := s.clock + delay + self.heartbeat }
    refine ⟨{ asleep with clock := s.clock + delay, thread := some u },
      hpath.pass (.io true 0) (fun _ => rfl) (by simp [connects, asleep]) ?_,
      ⟨⟨u, rfl, rfl, rfl⟩, rfl, hstop⟩⟩
    have hclose := closeConnection_of_not_usable
      (s := { asleep with clock := s.clock + delay }) hconn true
    simp only [machine, step, io, Option.bind_some, wake, asleep, le_refl, if_true,
      goto] at hclose ⊢
    rw [hclose]

/-! ## How many calls there can be -/

/-- The calls of the factory so far, where the loop makes `n` at most. -/
structure Counting (config : Config) (n : Nat) (s : PublishBackend) (k : Nat) : Prop where
  le : k ≤ n
  thread : ∀ th, s.thread = some th →
    match th.pc with
    | .top | .connect | .sleep _ => s.connections.usable th.conn = false ∧
        Spare config.reconnectRetryPolicy.afterFailure n s.reconnectFailures k
    | .handler => s.connections.usable th.conn = false ∧
        Spent config.reconnectRetryPolicy.afterFailure n s.reconnectFailures k
    | .cleanup _ | .dead _ => True
    | _ => False

/-- A connection that is not usable stays so when another is closed. -/
theorem not_usable_of_close {cs : Connections} {conn : Option Nat} {c : Nat}
    (h : cs.usable conn = false) : (cs.close c).usable conn = false := by
  cases conn with
  | none => rfl
  | some d =>
    by_contra hopen
    have hd : cs.isOpen d = true :=
      Connections.isOpen_of_close (by simpa [Connections.usable] using hopen)
    rw [show cs.isOpen d = false from h] at hd
    cases hd

theorem counting_io {th : Thread} {raises : Bool} {draw : ℚ} (hs : Counting self n s k)
    (hth : s.thread = some th) (hc : refusing s (.io raises draw))
    (h : s.io self th raises draw = some t) :
    Counting self n t (if connects s (.io raises draw) then k + 1 else k) := by
  have hcases := io_cases h
  have hthread := hs.thread th hth
  have hcount : connects s (.io raises draw) = match th.pc with
      | .connect => !s.connections.usable th.conn
      | _ => false := by simp [connects, hth]
  unfold refusing at hc
  rw [hcount] at hc ⊢
  cases hpc : th.pc <;> simp only [hpc] at hcases hthread hc ⊢
  case top =>
    obtain rfl : t = _ := hcases
    refine ⟨hs.le, fun th' hth' => ?_⟩
    obtain rfl := Option.some.inj hth'
    cases s.stopEvent
    · exact hthread
    · trivial
  case connect =>
    obtain ⟨hconn, hspare⟩ := hthread
    obtain ⟨hopen, -⟩ | ⟨-, -, rfl⟩ | ⟨-, rfl, -⟩ := hcases
    · exact absurd (hopen.symm.trans hconn) (by decide)
    · rw [hconn]
      refine ⟨hspare.spend.le, fun th' hth' => ?_⟩
      obtain rfl := Option.some.inj hth'
      exact ⟨hconn, hspare.spend⟩
    · exact absurd (hc (by simp [hconn])) (by decide)
  case handler =>
    obtain ⟨hconn, hspent⟩ := hthread
    obtain ⟨-, rfl⟩ := hcases
    refine ⟨hs.le, fun th' hth' => ?_⟩
    obtain rfl := Option.some.inj hth'
    rcases hp : self.reconnectRetryPolicy.pause (s.reconnectFailures + 2) draw with e | delay
    · trivial
    · refine ⟨hconn, hspent.goes ?_⟩
      rw [RetryPolicy.afterFailure, RetryPolicy.not_stuck_of_pause hp]
      rfl
  case sleep =>
    obtain ⟨-, rfl⟩ := hcases
    refine ⟨hs.le, fun th' hth' => ?_⟩
    obtain rfl := Option.some.inj hth'
    refine ⟨rfl, ?_⟩
    obtain ⟨cs, stats, hclose⟩ := exists_closeConnection s th.conn raises
    rw [hclose]
    exact hthread.2
  case cleanup =>
    obtain rfl : t = _ := hcases
    refine ⟨hs.le, fun th' hth' => ?_⟩
    obtain rfl := Option.some.inj hth'
    trivial

theorem counting_step {a : Action} (hs : Counting self n s k) (hc : refusing s a)
    (h : s.step self a = some t) : Counting self n t (if connects s a then k + 1 else k) := by
  have hcases := step_cases h
  cases a with
  | io raises draw =>
    obtain ⟨th, hth, h⟩ := hcases
    exact counting_io hs hth hc h
  | callStart =>
    obtain ⟨-, ⟨-, rfl⟩ | ⟨-, rfl⟩⟩ := hcases
    all_goals exact ⟨hs.le, hs.thread⟩
  | start => exact hc.elim
  | stop i =>
    obtain ⟨_, _, _, rfl⟩ := exists_stop h
    exact ⟨hs.le, hs.thread⟩
  | callStop | callPublish =>
    obtain rfl : t = _ := hcases
    exact ⟨hs.le, hs.thread⟩
  | publish i => obtain ⟨r, -, rfl⟩ := hcases; exact ⟨hs.le, hs.thread⟩
  | tick dt => obtain ⟨-, rfl⟩ := hcases; exact ⟨hs.le, hs.thread⟩
  | lose c =>
    obtain rfl : t = _ := hcases
    refine ⟨hs.le, fun th hth => ?_⟩
    have hthread := hs.thread th hth
    cases hpc : th.pc <;> simp only [hpc] at hthread ⊢
    all_goals exact ⟨not_usable_of_close hthread.1, hthread.2⟩

/-- **A connection factory that raises every time** is called at most `n` times
exactly when the delays run out by then. -/
theorem connects_atMost_iff (self : Config) {failures : Nat} {s : PublishBackend}
    (hs : AtHead failures s) (n : Nat) :
    (machine self).AtMost refusing connects n s ↔
      lasts self.reconnectRetryPolicy.afterFailure n failures = false := by
  constructor
  · intro hmost
    by_contra hlast
    exact Machine.not_atMost_of_lasts (fun i j s k hs hj => exists_round hs hj)
      (fun i s k hs => (exists_connect self hs).elim fun _ h => ⟨_, h.2⟩) hs
      (by simpa using hlast) hmost
  · intro hlast
    refine Machine.atMost_of_invariant (I := Counting self n) ⟨Nat.zero_le n, fun th hth => ?_⟩
      (fun _ _ h => h.le) fun t a u k hc ht hu => counting_step ht hc hu
    obtain ⟨⟨th', hth', hpc, hconn⟩, hfail, -⟩ := hs
    obtain rfl : th' = th := Option.some.inj (hth'.symm.trans hth)
    simp only [hpc]
    exact ⟨hconn, spare_zero.mpr (hfail ▸ hlast)⟩

end PublishBackend

end MqAdapters
