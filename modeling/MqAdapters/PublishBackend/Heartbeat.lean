import MqAdapters.PublishBackend.Order
import MqAdapters.PublishBackend.Pool

/-!
# The publish loop services its connection

The loop waits for a request until `next_heartbeat` at most, and then calls
`_pump_io_if_due`, whatever it has waited for.  The clock and the interval are exact
rationals.

* `Scheduled`: `next_heartbeat` is never more than one interval ahead, so no wait is
  longer than the interval.
* `pump_services`: what `_pump_io_if_due` does.
* `Served`: whoever is about to serve an item has just come from there with it.
* `keeps_servicing`: the three together, over every run.
-/

namespace MqAdapters

open Python Theory

namespace PublishBackend

variable {self : Config} {s t : PublishBackend} {th : Thread} {raises : Bool} {draw : ℚ}

/-! ## The schedule -/

/-- The next heartbeat is at most one interval away, and a wait ends by then. -/
structure Scheduled (config : Config) (s : PublishBackend) : Prop where
  next : ∀ th, s.thread = some th → th.nextHeartbeat ≤ s.clock + config.heartbeat
  waits : ∀ th timeout deadline, s.thread = some th → th.pc = .get timeout deadline →
    0 < config.heartbeat → ∃ w, timeout = some w ∧ 0 ≤ w ∧ w ≤ config.heartbeat

theorem heartbeat_nonneg (self : Config) : 0 ≤ self.heartbeat := le_max_left _ _

theorem scheduled_initial (self : Config) : Scheduled self initial where
  next th h := by cases h
  waits th timeout deadline h := by cases h

/-- The clock goes on, and the thread stays where it is. -/
theorem Scheduled.later (hs : Scheduled self s) (hth : t.thread = s.thread)
    (hclock : s.clock ≤ t.clock) : Scheduled self t where
  next th h := (hs.next th (hth ▸ h)).trans (by linarith)
  waits th timeout deadline h := hs.waits th timeout deadline (hth ▸ h)

/-- The thread goes on to another place than the wait. -/
theorem Scheduled.goes {th' : Thread} (hth : t.thread = some th')
    (hnext : th'.nextHeartbeat ≤ t.clock + self.heartbeat)
    (hpc : ∀ timeout deadline, th'.pc ≠ .get timeout deadline) : Scheduled self t where
  next th h := by
    obtain rfl : th' = th := Option.some.inj (hth.symm.trans h)
    exact hnext
  waits th timeout deadline h hget := by
    obtain rfl : th' = th := Option.some.inj (hth.symm.trans h)
    exact absurd hget (hpc timeout deadline)

theorem scheduled_io (hs : Scheduled self s) (hth : s.thread = some th)
    (h : s.io self th raises draw = some t) : Scheduled self t := by
  have hcases := io_cases h
  have hnext := hs.next th hth
  have hnn := heartbeat_nonneg self
  cases hpc : th.pc <;> simp only [hpc] at hcases
  case top =>
    obtain rfl : t = _ := hcases
    exact .goes rfl hnext (by split <;> exact nofun)
  case connect =>
    obtain ⟨-, rfl⟩ | ⟨-, -, rfl⟩ | ⟨-, -, rfl⟩ := hcases
    all_goals exact .goes rfl hnext nofun
  case openChannels =>
    obtain ⟨-, rfl⟩ | ⟨-, -, rfl⟩ | ⟨-, -, -, rfl⟩ | ⟨-, -, -, rfl⟩ := hcases
    all_goals exact .goes rfl hnext nofun
  case confirm =>
    obtain rfl : t = _ := hcases
    exact .goes rfl hnext nofun
  case connected =>
    -- the timeout is what is left until the next heartbeat
    obtain ⟨timeout, htimeout, rfl⟩ := hcases
    refine ⟨fun th' h' => ?_, fun th' timeout' deadline h' hget hpos => ?_⟩
    · obtain rfl := Option.some.inj h'
      exact hnext
    · obtain rfl := Option.some.inj h'
      obtain ⟨rfl, -⟩ := Pc.get.inj hget
      rw [if_pos hpos] at htimeout
      exact ⟨_, htimeout, le_max_left _ _, max_le hnn (by linarith)⟩
  case get =>
    obtain ⟨r, q, -, rfl⟩ | ⟨q, -, rfl⟩ | ⟨-, -, rfl⟩ := hcases
    all_goals exact .goes rfl hnext nofun
  case pump =>
    obtain ⟨-, rfl⟩ | ⟨-, -, rfl⟩ := hcases
    · exact .goes rfl hnext nofun
    · exact .goes rfl (le_refl _) nofun
  case serve item =>
    rcases item with _ | _ | r
    · obtain rfl : t = _ := hcases
      exact .goes rfl hnext nofun
    · obtain rfl : t = _ := hcases
      exact .goes rfl hnext nofun
    · obtain ⟨-, rfl⟩ | ⟨ch, -, rfl⟩ := hcases
      · exact .goes rfl hnext nofun
      · exact .goes rfl hnext (by cases raises <;> exact nofun)
  case handler =>
    obtain ⟨-, rfl⟩ := hcases
    exact .goes rfl hnext (by split <;> exact nofun)
  case sleep =>
    -- the schedule is re-aligned to the clock
    obtain ⟨-, rfl⟩ := hcases
    refine .goes rfl ?_ nofun
    obtain ⟨cs, stats, hclose⟩ := exists_closeConnection s th.conn raises
    rw [hclose]
    exact le_refl _
  case cleanup =>
    obtain rfl : t = _ := hcases
    refine .goes rfl ?_ nofun
    obtain ⟨cs, stats, hclose⟩ := exists_closeConnection s th.conn raises
    rw [hclose]
    exact hnext

theorem scheduled_step {a : Action} (hs : Scheduled self s) (h : s.step self a = some t) :
    Scheduled self t := by
  obtain ⟨raises, draw, th, rfl, hth, h⟩ | ⟨rfl, -, rfl⟩ | ⟨-, ha⟩ := thread_cases h
  · exact scheduled_io hs hth h
  · exact .goes rfl (by simpa using heartbeat_nonneg self) nofun
  · exact hs.later ha.thread ha.clock

theorem scheduled_of_reach {c : PublishBackend → Action → Prop} (h : (machine self).Reach c s) :
    Scheduled self s :=
  Machine.Path.invariant h (scheduled_initial self) fun _ _ _ _ hs ht => scheduled_step hs ht

/-! ## From the pump to the publish -/

/-- **What `_pump_io_if_due` does** with a heartbeat interval: when a heartbeat is due,
it calls `process_data_events` on an open connection and schedules the next one. -/
theorem pump_services {item : Item} (hpos : 0 < self.heartbeat) (hpc : th.pc = .pump item)
    (h : s.io self th raises draw = some t) :
    t.clock = s.clock ∧ t.passed = s.passed ∧ ∃ th', t.thread = some th' ∧ th'.pc = .serve item ∧
      (s.clock < th.nextHeartbeat → th'.nextHeartbeat = th.nextHeartbeat ∧ t.pumped = s.pumped) ∧
      (th.nextHeartbeat ≤ s.clock → th'.nextHeartbeat = s.clock + self.heartbeat ∧
        t.pumped = if s.connections.usable th.conn then s.pumped + 1 else s.pumped) := by
  have hcases := io_cases h
  simp only [hpc] at hcases
  obtain ⟨hor, rfl⟩ | ⟨-, hdue, rfl⟩ := hcases
  · have hlt := hor.resolve_left (not_le.mpr hpos)
    exact ⟨rfl, rfl, _, rfl, rfl, fun _ => ⟨rfl, rfl⟩, fun hle => absurd hlt (not_lt.mpr hle)⟩
  · exact ⟨rfl, rfl, _, rfl, rfl, fun hlt => absurd hdue (not_le.mpr hlt), fun _ => ⟨rfl, rfl⟩⟩

/-- The thread publishes a request only where it serves it. -/
theorem serve_of_passed (hp : Pooled self th) (h : s.io self th raises draw = some t)
    (hne : t.passed ≠ s.passed) :
    ∃ r ch, th.pc = .serve (.request r) ∧ t.passed = s.passed ++ [⟨r, ch, raises⟩] := by
  have hpassed := passed_of_io hp h
  split at hpassed
  · next r hpc =>
    obtain ⟨ch, hcall⟩ := hpassed
    exact ⟨r, ch, hpc, hcall⟩
  · exact absurd hpassed hne

/-- A step of the I/O thread. -/
def isIo : Action → Bool
  | .io _ _ => true
  | _ => false

/-- The step of the I/O thread before this one was `_pump_io_if_due` with the item, in
a state that the run has reached. -/
def PumpedFor (config : Config) (trace : List (PublishBackend × Action)) (item : Item) : Prop :=
  ∃ past u thu raises draw later, trace = past ++ (u, .io raises draw) :: later ∧
    (machine config).traced.Reach (fun _ _ => True) (u, past) ∧
    u.thread = some thu ∧ thu.pc = .pump item ∧ ∀ e ∈ later, isIo e.2 = false

/-- Whoever serves an item comes from the pump. -/
def Served (config : Config) (s : PublishBackend) (trace : List (PublishBackend × Action)) :
    Prop :=
  ∀ th item, s.thread = some th → th.pc = .serve item → PumpedFor config trace item

theorem PumpedFor.snoc {trace : List (PublishBackend × Action)} {item : Item} {a : Action}
    (h : PumpedFor self trace item) (ha : isIo a = false) :
    PumpedFor self (trace ++ [(s, a)]) item := by
  obtain ⟨past, u, thu, raises, draw, later, rfl, hu, hthu, hpc, hlater⟩ := h
  refine ⟨past, u, thu, raises, draw, later ++ [(s, a)], by simp, hu, hthu, hpc, ?_⟩
  intro e he
  rcases List.mem_append.mp he with he | he
  · exact hlater e he
  · rw [List.mem_singleton.mp he]
    exact ha

theorem served_step {trace : List (PublishBackend × Action)} {a : Action}
    (hr : (machine self).traced.Reach (fun _ _ => True) (s, trace)) (hs : Served self s trace)
    (h : s.step self a = some t) : Served self t (trace ++ [(s, a)]) := by
  intro th' item hth' hpc'
  obtain ⟨raises, draw, th, rfl, hth, h⟩ | ⟨rfl, -, rfl⟩ | ⟨hnot, ha⟩ := thread_cases h
  · have hpc : th.pc = .pump item := by
      have hsource := source_of_io h hth'
      rwa [hpc'] at hsource
    exact ⟨trace, s, th, raises, draw, [], rfl, hr, hth, hpc,
      fun e he => absurd he List.not_mem_nil⟩
  · -- a new thread is at the head of its loop
    obtain rfl := Option.some.inj hth'
    cases hpc'
  · have hio : isIo a = false := by
      cases a with
      | io raises draw => exact absurd rfl (hnot raises draw)
      | _ => rfl
    exact (hs th' item (ha.thread ▸ hth') hpc').snoc hio

theorem served_of_reach {trace : List (PublishBackend × Action)}
    (h : (machine self).traced.Reach (fun _ _ => True) (s, trace)) : Served self s trace := by
  have hinit : Served self initial [] := fun th item hth => by cases hth
  refine Machine.Reach.invariant (P := fun p => Served self p.1 p.2) h hinit ?_
  rintro ⟨s, trace⟩ a ⟨t, trace'⟩ hr - hs ht
  obtain ⟨ht, rfl⟩ := Machine.traced_step ht
  exact served_step hr hs ht

/-- **The publish loop keeps servicing the connection.**  Each wait for a request has a
timeout from zero to the heartbeat interval; `_pump_io_if_due` calls
`process_data_events` on an open connection when a heartbeat is due, publishes nothing,
and leaves the next heartbeat at most one interval ahead; and a request is published
only right after `_pump_io_if_due` was called with it in hand. -/
theorem keeps_servicing (hpos : 0 < self.heartbeatInterval)
    {trace : List (PublishBackend × Action)}
    (h : (machine self).traced.Reach (fun _ _ => True) (s, trace)) :
    (∀ th timeout deadline, s.thread = some th → th.pc = .get timeout deadline →
      ∃ w, timeout = some w ∧ 0 ≤ w ∧ w ≤ self.heartbeatInterval) ∧
    (∀ th item raises draw t, s.thread = some th → th.pc = .pump item →
      s.step self (.io raises draw) = some t →
        t.clock = s.clock ∧ t.passed = s.passed ∧ ∃ th', t.thread = some th' ∧
          th'.pc = .serve item ∧ th'.nextHeartbeat ≤ t.clock + self.heartbeatInterval ∧
          (th.nextHeartbeat ≤ s.clock →
            th'.nextHeartbeat = s.clock + self.heartbeatInterval ∧
            (s.connections.usable th.conn = true → t.pumped = s.pumped + 1))) ∧
    (∀ a t, s.step self a = some t → t.passed ≠ s.passed →
      ∃ call, t.passed = s.passed ++ [call] ∧ PumpedFor self trace (.request call.request)) := by
  have hsame : self.heartbeat = self.heartbeatInterval := max_eq_right hpos.le
  have hpath : (machine self).traced.Path (fun _ _ => True) (initial, []) (s, trace) := h
  have hreach : (machine self).Reach (fun _ _ => True) s :=
    Machine.Path.of_traced (c := fun _ _ => True) hpath
  have hs : Scheduled self s := scheduled_of_reach hreach
  have hw : Wellformed self s := (accounted_of_reach hreach).1
  refine ⟨fun th timeout deadline hth hpc => ?_, fun th item raises draw t hth hpc ht => ?_,
    fun a t ht hne => ?_⟩
  · exact hsame ▸ hs.waits th timeout deadline hth hpc (hsame ▸ hpos)
  · obtain ⟨th₀, hth₀, hio⟩ := step_cases ht
    obtain rfl : th = th₀ := Option.some.inj (hth.symm.trans hth₀)
    obtain ⟨hclock, hpassed, th', hth', hpc', -, hdue⟩ := pump_services (hsame ▸ hpos) hpc hio
    refine ⟨hclock, hpassed, th', hth', hpc', ?_, fun hle => ?_⟩
    · exact hsame ▸ (scheduled_io hs hth hio).next th' hth'
    · obtain ⟨hnext, hpumped⟩ := hdue hle
      exact ⟨hsame ▸ hnext, fun hopen => by rw [hpumped, if_pos hopen]⟩
  · obtain ⟨raises, draw, th, rfl, hth, hstep⟩ | ⟨rfl, -, rfl⟩ | ⟨-, ha⟩ := thread_cases ht
    · obtain ⟨r, ch, hpc, hpassed⟩ := serve_of_passed (hw.pooled th hth) hstep hne
      exact ⟨_, hpassed, served_of_reach h th _ hth hpc⟩
    · exact absurd rfl hne
    · exact absurd ha.passed hne

/-- A start and a request, up to the pump: the first heartbeat is due. -/
def beatingRun : List Action :=
  [.callStart, .start, .start, .callPublish [1] none, .publish 0] ++ List.replicate 9 (.io false 0)

def beating : PublishBackend × List (PublishBackend × Action) :=
  ((machine defaultConfig).traced.runIn (fun _ _ => true) (initial, []) beatingRun).getD
    (initial, [])

theorem beating_reach : (machine defaultConfig).traced.Reach (fun _ _ => True) beating :=
  (Machine.path_of_isSome (M := (machine defaultConfig).traced) (c := fun _ _ => true)
    (show ((machine defaultConfig).traced.runIn _ (initial, []) beatingRun).isSome = true
      from rfl) _).mono fun _ _ _ => trivial

/-- `process_data_events` is called, and then the request is served. -/
theorem keeps_servicing_beating : ∃ t, beating.1.step defaultConfig (.io false 0) = some t ∧
    t.pumped = beating.1.pumped + 1 ∧
    ∃ th', t.thread = some th' ∧ th'.pc = .serve (.request ⟨[1], "events", "all"⟩) ∧
      th'.nextHeartbeat ≤ t.clock + 1 := by
  have hpos : 0 < defaultConfig.heartbeatInterval := by decide
  obtain ⟨-, hpump, -⟩ := keeps_servicing hpos beating_reach
  obtain ⟨-, -, th', hth', hpc', hnext, hdue⟩ :=
    hpump _ (.request ⟨[1], "events", "all"⟩) false 0 _ rfl rfl rfl
  exact ⟨_, rfl, (hdue (by decide)).2 rfl, th', hth', hpc', hnext⟩

end PublishBackend

end MqAdapters
