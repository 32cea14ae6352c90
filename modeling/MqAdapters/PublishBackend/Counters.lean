import MqAdapters.PublishBackend.Stop

/-!
# What the counters of the backend count

`published` and `publish_failed` count the calls of `basic_publish`, and
`publish_failed` counts the calls of `confirm_delivery` that raised as well.

* `Counted`: the counters against the steps of the run.
* `publisher_counters`: at every loop head the counters account for every request
  that was taken from the queue, and so for every request that was accepted.
-/

namespace MqAdapters

open Python Theory

namespace PublishBackend

variable {self : Config} {s t : PublishBackend} {th : Thread} {raises : Bool} {draw : ℚ}

/-! ## What is counted -/

/-- The next step at this point takes a request from the queue. -/
def Pc.takes (pc : Pc) (queue : List (Option PublishRequest)) : Bool :=
  match pc, queue with
  | .get _ _, some _ :: _ => true
  | _, _ => false

/-- The next step at this point is the set-up of confirms. -/
def Pc.confirms : Pc → Bool
  | .confirm _ => true
  | _ => false

/-- The I/O thread takes a request from the queue. -/
def takes (p : PublishBackend × Action) : Bool :=
  match p.2 with
  | .io _ _ => p.1.thread.any fun th => th.pc.takes p.1.queue
  | _ => false

/-- The set-up of confirms raises on a new channel. -/
def confirmFails (p : PublishBackend × Action) : Bool :=
  match p.2 with
  | .io raises _ => p.1.thread.any fun th => th.pc.confirms && raises
  | _ => false

/-- Every call of `basic_publish` is counted, and every set-up of confirms that
raised; the calls are the requests taken but for the one in hand; and no more
connections are counted as closed than are closed. -/
structure Counted (s : PublishBackend) (trace : List (PublishBackend × Action)) : Prop where
  outcomes : s.stats.published + s.stats.publishFailed =
    s.passed.length + trace.countP confirmFails
  requests : trace.countP takes = s.passed.length + s.phase.held.length
  opened : s.stats.connectionsOpened = s.connections.length
  closed : s.stats.connectionsClosed ≤ s.connections.count false

theorem counted_initial : Counted initial [] := ⟨rfl, rfl, rfl, Nat.le_refl _⟩

/-! ## One step -/

/-- The counters and what they count stay. -/
structure Unmoved (s t : PublishBackend) : Prop where
  stats : t.stats = s.stats
  passed : t.passed = s.passed
  held : t.phase.held = s.phase.held
  connections : t.connections = s.connections

theorem Counted.unmoved {trace : List (PublishBackend × Action)} {a : Action}
    (hs : Counted s trace) (h : Unmoved s t) (htakes : takes (s, a) = false)
    (hfails : confirmFails (s, a) = false) : Counted t (trace ++ [(s, a)]) where
  outcomes := by
    rw [h.stats, h.passed, List.countP_append, List.countP_singleton, hfails]
    exact hs.outcomes
  requests := by
    rw [h.passed, h.held, List.countP_append, List.countP_singleton, htakes]
    exact hs.requests
  opened := by rw [h.stats, h.connections]; exact hs.opened
  closed := by rw [h.stats, h.connections]; exact hs.closed

/-- A call of `stop` counts nothing. -/
theorem unmoved_stop {i : Nat} (h : s.stop self i = some t) : Unmoved s t := by
  obtain ⟨_, _, _, rfl⟩ := exists_stop h
  exact ⟨rfl, rfl, rfl, rfl⟩

/-- Closing an open connection makes one more that is closed. -/
theorem count_close_of_isOpen {cs : Connections} {c : Nat} (h : cs.isOpen c = true) :
    (cs.close c).count false = cs.count false + 1 := by
  have hc : cs[c]? = some true := by
    unfold Connections.isOpen at h
    rw [List.getD_eq_getElem?_getD] at h
    cases hx : cs[c]? with
    | none => rw [hx] at h; cases h
    | some b => rw [hx] at h; rw [show b = true from h]
  exact countP_set_add (p := (· == false)) (y := false) hc

theorem count_le_close (cs : Connections) (c : Nat) :
    cs.count false ≤ (cs.close c).count false := by
  by_cases h : cs.isOpen c = true
  · rw [count_close_of_isOpen h]
    omega
  · cases hx : cs[c]? with
    | none => rw [Connections.close, List.set_eq_of_length_le (List.getElem?_eq_none_iff.mp hx)]
    | some b =>
      have hcount := countP_set_add (p := (· == false)) (y := false) hx
      have hle : (if (b == false) = true then 1 else 0) ≤ 1 := by split <;> omega
      simp only [BEq.rfl, if_true] at hcount
      rw [Connections.close, List.count]
      omega

/-- `conn.close()` counts what it closes. -/
theorem Counted.closes {trace : List (PublishBackend × Action)} (hs : Counted s trace)
    (conn : Option Nat) (raises : Bool) :
    let u := s.closeConnection conn raises
    u.stats.connectionsOpened = u.connections.length ∧
      u.stats.connectionsClosed ≤ u.connections.count false ∧
      u.stats.published + u.stats.publishFailed = s.stats.published + s.stats.publishFailed ∧
      u.passed = s.passed := by
  unfold closeConnection
  cases conn with
  | none => exact ⟨hs.opened, hs.closed, rfl, rfl⟩
  | some c =>
    dsimp only
    split
    · next hopen =>
      have hcount := count_close_of_isOpen hopen
      have hclosed := hs.closed
      refine ⟨?_, ?_, ?_, rfl⟩
      · cases raises <;> simpa [Connections.close, Stats.incConnectionsClosed] using hs.opened
      · rw [hcount]
        cases raises
        · simp only [Stats.incConnectionsClosed, Bool.false_eq_true, if_false]
          omega
        · simp only [if_true]
          omega
      · cases raises <;> rfl
    · exact ⟨hs.opened, hs.closed, rfl, rfl⟩

/-- **A step of the I/O thread** is counted. -/
theorem counted_io {trace : List (PublishBackend × Action)} (hs : Counted s trace)
    (hth : s.thread = some th) (hp : Pooled self th) (h : s.io self th raises draw = some t) :
    Counted t (trace ++ [(s, .io raises draw)]) := by
  have hc := io_cases h
  have ht : takes (s, .io raises draw) = th.pc.takes s.queue := by simp [takes, hth]
  have hf : confirmFails (s, .io raises draw) = (th.pc.confirms && raises) := by
    simp [confirmFails, hth]
  have hheld : s.phase.held = (s.goto th th.pc).phase.held := by
    rw [phase, hth]
    rfl
  have houtcomes := hs.outcomes
  have hrequests := hs.requests
  -- closing a connection counts no request
  have hclose : ∀ {th' pc}, takes (s, .io raises draw) = false →
      confirmFails (s, .io raises draw) = false → s.phase.held = [] →
      (s.goto th' pc).phase.held = [] → t = (s.closeConnection th.conn raises).goto th' pc →
      Counted t (trace ++ [(s, .io raises draw)]) := by
    rintro th' pc ht hf hold hnew rfl
    obtain ⟨hopened, hclosed, hstats, hpassed⟩ := hs.closes th.conn raises
    refine ⟨?_, ?_, hopened, hclosed⟩
    · rw [List.countP_append, List.countP_singleton, hf]
      exact hstats.trans (houtcomes.trans (by simp [goto, hpassed]))
    · rw [List.countP_append, List.countP_singleton, ht]
      refine hrequests.trans ?_
      rw [hold, show ((s.closeConnection th.conn raises).goto th' pc).phase.held = [] from hnew]
      simp [goto, hpassed]
  cases hpc : th.pc <;> simp only [hpc] at hc ht hf hheld
  case top =>
    subst hc
    refine hs.unmoved ⟨rfl, rfl, ?_, rfl⟩ ht hf
    rw [hheld]
    cases s.stopEvent <;> rfl
  case connect =>
    obtain ⟨-, rfl⟩ | ⟨-, -, rfl⟩ | ⟨-, -, rfl⟩ := hc
    · exact hs.unmoved ⟨rfl, rfl, hheld.symm, rfl⟩ ht hf
    · exact hs.unmoved ⟨rfl, rfl, hheld.symm, rfl⟩ ht hf
    · refine ⟨?_, ?_, ?_, ?_⟩
      · rw [List.countP_append, List.countP_singleton, hf]
        exact houtcomes
      · rw [List.countP_append, List.countP_singleton, ht]
        exact hrequests.trans (by rw [hheld]; rfl)
      · simp [Stats.incConnectionsOpened, Connections.connect, hs.opened]
      · refine hs.closed.trans ?_
        simp [Connections.connect]
  case openChannels =>
    obtain ⟨-, rfl⟩ | ⟨-, -, rfl⟩ | ⟨-, -, -, rfl⟩ | ⟨-, -, -, rfl⟩ := hc
    all_goals exact hs.unmoved ⟨rfl, rfl, hheld.symm, rfl⟩ ht hf
  case confirm ch =>
    subst hc
    refine ⟨?_, ?_, ?_, ?_⟩
    · rw [List.countP_append, List.countP_singleton, hf]
      cases raises
      · exact houtcomes
      · simp only [goto, Stats.incPublishFailed, Pc.confirms, Bool.and_true, if_true]
        omega
    · rw [List.countP_append, List.countP_singleton, ht]
      exact hrequests.trans (by rw [hheld]; rfl)
    · cases raises <;> exact hs.opened
    · cases raises <;> exact hs.closed
  case connected =>
    obtain ⟨timeout, -, rfl⟩ := hc
    exact hs.unmoved ⟨rfl, rfl, hheld.symm, rfl⟩ ht hf
  case get timeout deadline =>
    obtain ⟨r, q, hq, rfl⟩ | ⟨q, hq, rfl⟩ | ⟨hq, -, rfl⟩ := hc <;> rw [hq] at ht
    · refine ⟨?_, ?_, hs.opened, hs.closed⟩
      · rw [List.countP_append, List.countP_singleton, hf]
        exact houtcomes
      · rw [List.countP_append, List.countP_singleton, ht, hrequests, hheld]
        rfl
    · exact hs.unmoved ⟨rfl, rfl, hheld.symm, rfl⟩ ht hf
    · exact hs.unmoved ⟨rfl, rfl, hheld.symm, rfl⟩ ht hf
  case pump item =>
    obtain ⟨-, rfl⟩ | ⟨-, -, rfl⟩ := hc
    all_goals exact hs.unmoved ⟨rfl, rfl, hheld.symm, rfl⟩ ht hf
  case serve item =>
    rcases item with _ | _ | r
    · subst hc
      exact hs.unmoved ⟨rfl, rfl, hheld.symm, rfl⟩ ht hf
    · subst hc
      exact hs.unmoved ⟨rfl, rfl, hheld.symm, rfl⟩ ht hf
    · have hpool : self.poolSize ≤ th.channels.length := by simpa [Pooled, hpc] using hp
      obtain ⟨hnone, -⟩ | ⟨ch, -, rfl⟩ := hc
      · exact absurd hnone (channel_ne_none hpool)
      · -- the request in hand becomes a call of `basic_publish`
        rw [hheld, show (s.goto th (.serve (.request r))).phase.held.length = 1 from rfl]
          at hrequests
        refine ⟨?_, ?_, ?_, ?_⟩
        · rw [List.countP_append, List.countP_singleton, hf]
          cases raises <;>
            simp only [goto, Stats.incPublishFailed, Stats.incPublished, List.length_append,
              List.length_singleton, Pc.confirms, Bool.false_and, Bool.false_eq_true, if_false,
              if_true] <;> omega
        · rw [List.countP_append, List.countP_singleton, ht]
          cases raises <;> simp [goto, phase, Phase.held, hrequests, Pc.takes]
        · cases raises <;> exact hs.opened
        · cases raises <;> exact hs.closed
  case handler =>
    obtain ⟨-, rfl⟩ := hc
    refine ⟨?_, ?_, hs.opened, hs.closed⟩
    · rw [List.countP_append, List.countP_singleton, hf]
      exact houtcomes
    · rw [List.countP_append, List.countP_singleton, ht, hrequests, hheld]
      cases self.reconnectRetryPolicy.pause (s.reconnectFailures + 2) draw <;> rfl
  case sleep until_ => exact hclose ht hf hheld rfl hc.2
  case cleanup exit => exact hclose ht hf hheld rfl hc

/-- **Every step** is counted. -/
theorem counted_step {trace : List (PublishBackend × Action)} {a : Action} (hs : Counted s trace)
    (hw : Wellformed self s) (h : s.step self a = some t) : Counted t (trace ++ [(s, a)]) := by
  have hc := step_cases h
  cases a with
  | io raises draw =>
    obtain ⟨th, hth, h⟩ := hc
    exact counted_io hs hth (hw.pooled th hth) h
  | callStart =>
    obtain ⟨-, ⟨-, rfl⟩ | ⟨-, rfl⟩⟩ := hc
    all_goals exact hs.unmoved ⟨rfl, rfl, rfl, rfl⟩ rfl rfl
  | start =>
    obtain ⟨-, rfl⟩ | ⟨hstart, rfl⟩ := hc
    · exact hs.unmoved ⟨rfl, rfl, rfl, rfl⟩ rfl rfl
    · -- the thread that is replaced had nothing in hand
      have hout : s.phase = .out := phase_of_not_alive (hw.starting (by simp [hstart]))
      exact hs.unmoved ⟨rfl, rfl, by rw [hout]; rfl, rfl⟩ rfl rfl
  | stop i => exact hs.unmoved (unmoved_stop h) rfl rfl
  | callStop | callPublish =>
    obtain rfl : t = _ := hc
    exact hs.unmoved ⟨rfl, rfl, rfl, rfl⟩ rfl rfl
  | publish i =>
    obtain ⟨r, -, rfl⟩ := hc
    exact hs.unmoved ⟨rfl, rfl, rfl, rfl⟩ rfl rfl
  | tick dt =>
    obtain ⟨-, rfl⟩ := hc
    exact hs.unmoved ⟨rfl, rfl, rfl, rfl⟩ rfl rfl
  | lose c =>
    obtain rfl : t = _ := hc
    refine ⟨?_, ?_, ?_, hs.closed.trans (count_le_close s.connections c)⟩
    · rw [List.countP_append, List.countP_singleton]
      exact hs.outcomes
    · rw [List.countP_append, List.countP_singleton]
      exact hs.requests
    · simp [Connections.close, hs.opened]

/-! ## The whole run -/

/-- Confirms are set up only where they are asked for. -/
def Confirming (self : Config) (s : PublishBackend) : Prop :=
  ∀ th, s.thread = some th → th.pc.confirms = true → self.confirmDelivery = true

/-- The I/O thread gets to the set-up of confirms from the `while` loop only. -/
theorem confirming_io (h : s.io self th raises draw = some t) :
    Confirming self t := by
  intro th' hth' hconf
  have hsource := source_of_io h hth'
  unfold Pc.confirms at hconf
  split at hconf
  · next hpc => rwa [hpc] at hsource
  · cases hconf

theorem confirming_step {a : Action} (hs : Confirming self s) (h : s.step self a = some t) :
    Confirming self t := by
  obtain ⟨raises, draw, th, rfl, -, h⟩ | ⟨rfl, -, rfl⟩ | ⟨-, ha⟩ := thread_cases h
  · exact confirming_io h
  · intro th hth hconf
    obtain rfl := Option.some.inj hth
    cases hconf
  · exact fun th hth => hs th (ha.thread ▸ hth)

/-- A set-up of confirms raises only where they are asked for. -/
theorem confirmDelivery_of_confirmFails (hs : Confirming self s) {a : Action}
    (h : confirmFails (s, a) = true) : self.confirmDelivery = true := by
  cases a with
  | io raises draw =>
    obtain ⟨th, hth, hconf⟩ := (Option.any_eq_true _ _).mp h
    exact hs th hth (Bool.and_eq_true_iff.mp hconf).1
  | _ => cases h

/-- What every run keeps. -/
theorem counted_of_reach {trace : List (PublishBackend × Action)}
    (h : (machine self).traced.Reach (fun _ _ => True) (s, trace)) :
    Counted s trace ∧ Wellformed self s ∧ (view s).Accounted ∧
      (self.confirmDelivery = false → trace.countP confirmFails = 0) := by
  have hpath : (machine self).traced.Path (fun _ _ => True) (initial, []) (s, trace) := h
  have hreach : (machine self).Reach (fun _ _ => True) s :=
    Machine.Path.of_traced (c := fun _ _ => True) hpath
  obtain ⟨hw, ha⟩ := accounted_of_reach hreach
  suffices Counted s trace ∧ Wellformed self s ∧ Confirming self s ∧
      (self.confirmDelivery = false → trace.countP confirmFails = 0) from
    ⟨this.1, hw, ha, this.2.2.2⟩
  refine Machine.Path.trace_invariant (c := fun _ _ => True)
    (P := fun s trace => Counted s trace ∧ Wellformed self s ∧ Confirming self s ∧
      (self.confirmDelivery = false → trace.countP confirmFails = 0)) hpath
    ⟨counted_initial, ⟨fun _ h => (by cases h), fun h => (by cases h)⟩, fun _ h => (by cases h),
      fun _ => rfl⟩ ?_
  rintro s a t trace - ⟨hcount, hw, hconf, hoff⟩ ht
  refine ⟨counted_step hcount hw ht, wellformed_step self s a t hw ht, confirming_step hconf ht,
    fun h => ?_⟩
  rw [List.countP_append, List.countP_singleton, hoff h, if_neg]
  intro hfails
  exact absurd (h.symm.trans (confirmDelivery_of_confirmFails hconf hfails)) (by decide)

/-- **The counters account for every request.**  At a loop head `published` and
`publish_failed` together count the requests taken from the queue and the set-ups of
confirms that raised; a request that was accepted is counted or still queued.  No
more connections are counted as closed than as opened. -/
theorem publisher_counters (self : Config) {s : PublishBackend}
    {trace : List (PublishBackend × Action)}
    (h : (machine self).traced.Reach (fun _ _ => True) (s, trace)) :
    (∀ th, s.thread = some th → th.pc = .top →
      s.stats.published + s.stats.publishFailed =
        trace.countP takes + trace.countP confirmFails ∧
      s.accepted.length + trace.countP confirmFails =
        s.stats.published + s.stats.publishFailed + (Consumer.items s.queue).length) ∧
    (self.confirmDelivery = false → trace.countP confirmFails = 0) ∧
    s.stats.connectionsClosed ≤ s.stats.connectionsOpened := by
  obtain ⟨hcount, -, ha, hoff⟩ := counted_of_reach h
  refine ⟨fun th hth hpc => ?_, hoff, ?_⟩
  · -- at the loop head no request is in hand
    have hheld : s.phase.held = [] := by
      rw [phase, hth]
      simp only [hpc]
      rfl
    have houtcomes := hcount.outcomes
    have hrequests := hcount.requests
    have hlen : s.accepted.length = s.passed.length + (Consumer.items s.queue).length := by
      have hacc := congrArg List.length (show s.accepted = _ from ha)
      simpa [view, hheld] using hacc
    rw [hheld, List.length_nil] at hrequests
    omega
  · rw [hcount.opened]
    exact hcount.closed.trans List.count_le_length

/-! ## A set-up of confirms that raises -/

/-- A backend with one channel, on which confirms are to be set up. -/
def confirmConfig : Config :=
  { defaultConfig with channels := 1, confirmDelivery := true, heartbeatInterval := 0 }

/-- A start, and the loop up to the set-up of confirms, which raises; then one
request, which is published. -/
def confirmRaisesRun : List Action :=
  [.callStart, .start, .start, .io false 0, .io false 0, .io false 0, .io true 0, .io false 0,
    .io false 0, .callPublish [] none, .publish 0, .io false 0, .io false 0, .io false 0]

def confirmRaised : PublishBackend × List (PublishBackend × Action) :=
  ((machine confirmConfig).traced.runIn (fun _ _ => true) (initial, []) confirmRaisesRun).getD
    (initial, [])

theorem confirmRaised_reach :
    (machine confirmConfig).traced.Reach (fun _ _ => True) confirmRaised :=
  (Machine.path_of_isSome (M := (machine confirmConfig).traced) (c := fun _ _ => true)
    (show ((machine confirmConfig).traced.runIn _ (initial, []) confirmRaisesRun).isSome = true
      from rfl) _).mono fun _ _ _ => trivial

theorem publisher_counters_confirm :
    (∀ th, confirmRaised.1.thread = some th → th.pc = .top →
      confirmRaised.1.stats.published + confirmRaised.1.stats.publishFailed =
        confirmRaised.2.countP takes + confirmRaised.2.countP confirmFails ∧
      confirmRaised.1.accepted.length + confirmRaised.2.countP confirmFails =
        confirmRaised.1.stats.published + confirmRaised.1.stats.publishFailed +
          (Consumer.items confirmRaised.1.queue).length) ∧
    (confirmConfig.confirmDelivery = false → confirmRaised.2.countP confirmFails = 0) ∧
    confirmRaised.1.stats.connectionsClosed ≤ confirmRaised.1.stats.connectionsOpened :=
  publisher_counters confirmConfig confirmRaised_reach

/-- A loop head with one request accepted, taken and published, and two counted: the
set-up of confirms that raised is counted as a failed publish. -/
theorem confirm_failure_counted : ∃ s trace,
    (machine confirmConfig).traced.Reach (fun _ _ => True) (s, trace) ∧
    s.thread.map (·.pc) = some .top ∧ trace.countP takes = 1 ∧ s.accepted.length = 1 ∧
    s.queue = [] ∧ s.stats.published + s.stats.publishFailed = 2 :=
  ⟨confirmRaised.1, confirmRaised.2, confirmRaised_reach, rfl, rfl, rfl, rfl, rfl⟩

end PublishBackend

end MqAdapters
