import MqAdapters.AsyncSender.Model

/-!
# The connection of the async sender

What the tasks do to `self._conn`, and when that leaks a connection: a factory
returns while the held connection is open, a `send` that gives up forgets an
open connection, or a `stop` forgets one that was opened while it closed
another.  None of these closes what it drops.

* `keeping`: the step does none of the three.
* `only_held_open`: in keeping runs the held connection is the only one that can
  be open, and the next step keeps that exactly if it is keeping too.
-/

namespace MqAdapters

open Python Theory

namespace AsyncSender

/-! ## When a `send` gives up -/

/-- The attempt of `_do_publish` that a step belongs to. -/
def SendPc.attempt : SendPc → Nat
  | .starting attempt _ | .gather attempt _ | .confirm attempt _ => attempt
  | .sleep attempt _ => attempt + 1
  | .begin | .returned | .raised => 1

/-- The attempt of `start` raises in this step, and is its last. -/
def startRaises (self : Config) (s : AsyncSender) (raises : Bool) (draw : ℚ) : StartPc → Bool
  | .factory attempt | .channel attempt _ | .declare attempt _ =>
    raises && (s.retryAt self attempt draw).isNone
  | .sleep _ _ => false

/-- The attempt of `_do_publish` raises in this step. -/
def attemptRaises (self : Config) (s : AsyncSender) (raises : Bool) (draw : ℚ) : SendPc → Bool
  -- `start` finds an open connection, and the assertion fails
  | .begin | .sleep _ _ => s.connected && s.exchange.isNone
  | .starting _ pc => s.startRaises self raises draw pc
  | .gather _ b => s.confirms.result b == some .failed
  | .confirm _ f => s.confirms.outcome f == .failed
  | .returned | .raised => false

/-- The attempt raises and is the last. -/
def givesUp (self : Config) (s : AsyncSender) (raises : Bool) (draw : ℚ) (pc : SendPc) : Bool :=
  s.attemptRaises self raises draw pc && (s.retryAt self pc.attempt draw).isNone

/-! ## What a step does to the connection -/

/-- `self._conn` and what is open. -/
def link (s : AsyncSender) : Option Nat × Connections := (s.conn, s.connections)

/-- The factory returns. -/
def connects (raises : Bool) : StartPc → Bool
  | .factory _ => !raises
  | _ => false

def SendPc.connects (raises : Bool) : SendPc → Bool
  | .starting _ pc => AsyncSender.connects raises pc
  | _ => false

section

variable {self : Config} {s t u : AsyncSender} {i attempt : Nat} {raises : Bool} {draw : ℚ}

@[simp] theorem startFlusher_conn : (s.startFlusher self).conn = s.conn := by
  unfold startFlusher
  split <;> rfl

@[simp] theorem startFlusher_channel : (s.startFlusher self).channel = s.channel := by
  unfold startFlusher
  split <;> rfl

@[simp] theorem startFlusher_exchange : (s.startFlusher self).exchange = s.exchange := by
  unfold startFlusher
  split <;> rfl

@[simp] theorem startFlusher_connections : (s.startFlusher self).connections = s.connections := by
  unfold startFlusher
  split <;> rfl

@[simp] theorem startFlusher_clock : (s.startFlusher self).clock = s.clock := by
  unfold startFlusher
  split <;> rfl

/-- What a step of `start` does to the connection, to the clock, and whether it
raises. -/
theorem startStep_link {pc : StartPc} {p : AsyncSender × Starting}
    (h : s.startStep self raises draw pc = some p) :
    p.1.link = (if connects raises pc then (some s.connections.fresh, s.connections.connect)
      else s.link) ∧ p.1.clock = s.clock ∧
    match p.2 with
    | .going _ => s.startRaises self raises draw pc = false
    | .returned => s.startRaises self raises draw pc = false ∧ connects raises pc = false ∧
        p.1.exchange.isSome = true
    | .raised => s.startRaises self raises draw pc = true ∧ connects raises pc = false := by
  cases pc with
  | factory n =>
    cases h
    cases raises <;> cases hr : s.retryAt self n draw <;>
      simp [connects, startRaises, startFailed, link, hr]
  | channel n c =>
    cases h
    cases raises <;> cases hr : s.retryAt self n draw <;>
      simp [connects, startRaises, startFailed, link, hr]
  | declare n k =>
    cases h
    cases raises <;> cases hr : s.retryAt self n draw <;>
      simp [connects, startRaises, startFailed, link, hr]
  | sleep n until_ =>
    simp only [startStep] at h
    split at h <;> cases h
    simp [connects, startRaises, callFactory, link]

@[simp] theorem sendAt_link {pc : SendPc} : (s.sendAt i pc).link = s.link := rfl

theorem connections_of_link (h : t.link = s.link) : t.connections = s.connections :=
  congrArg Prod.snd h

/-- A `send` whose attempt has raised forgets the connection if it was the last. -/
theorem sendFailed_link : (s.sendFailed self i attempt draw).link =
    if (s.retryAt self attempt draw).isNone then (none, s.connections) else s.link := by
  unfold sendFailed
  cases s.retryAt self attempt draw <;> rfl

/-- With an exchange, publishing leaves the connection alone. -/
theorem publish_link {call : SendCall} : (s.publish self i call attempt draw).link =
    if s.exchange.isNone && (s.retryAt self attempt draw).isNone then (none, s.connections)
    else s.link := by
  unfold publish
  cases hx : s.exchange with
  | none =>
    rw [sendFailed_link]
    simp
  | some exchange =>
    dsimp only
    split
    · split <;> rfl
    · rfl

theorem doPublish_link {call : SendCall} : (s.doPublish self i call attempt draw).link =
    if (s.connected && s.exchange.isNone) && (s.retryAt self attempt draw).isNone then
      (none, s.connections) else s.link := by
  unfold doPublish
  split
  · next h =>
    simp only [Bool.and_eq_true, Option.isSome_iff_exists] at h
    obtain ⟨⟨-, exchange, hx⟩, -⟩ := h
    simp [publish_link, hx]
  · unfold startBegin
    split
    · next hc => simp [sendStarting, publish_link, hc]
    · next hc => simp [sendStarting, callFactory, sendAt, link, hc]

/-- What a step of `send` does to the connection. -/
theorem send_link {call : SendCall} (hcall : s.sends[i]? = some call)
    (h : s.send self i raises draw = some t) :
    t.link = if s.givesUp self raises draw call.pc then (none, s.connections)
      else if call.pc.connects raises then (some s.connections.fresh, s.connections.connect)
      else s.link := by
  simp only [send, hcall, Option.bind_some] at h
  split at h
  · cases h
  · cases hpc : call.pc with
    | begin =>
      simp only [hpc] at h
      cases h
      simp [doPublish_link, givesUp, attemptRaises, SendPc.attempt, SendPc.connects]
    | starting n pc =>
      simp only [hpc] at h
      obtain ⟨⟨u, starting⟩, hp, rfl⟩ := Option.map_eq_some_iff.mp h
      obtain ⟨hlink, hclock, hout⟩ := startStep_link hp
      have hretry : ∀ n, u.retryAt self n draw = s.retryAt self n draw := by
        intro n
        unfold retryAt
        rw [hclock]
      cases starting with
      | going pc' =>
        cases hcon : AsyncSender.connects raises pc <;>
          simp_all [sendStarting, givesUp, attemptRaises, SendPc.connects]
      | returned =>
        obtain ⟨hraises, hcon, hx⟩ := hout
        obtain ⟨exchange, hx⟩ := Option.isSome_iff_exists.mp hx
        simp_all [sendStarting, publish_link, givesUp, attemptRaises, SendPc.connects]
      | raised =>
        obtain ⟨hraises, hcon⟩ := hout
        simp only [hcon] at hlink
        have hsame := connections_of_link hlink
        simp_all [sendStarting, sendFailed_link, givesUp, attemptRaises, SendPc.attempt,
          SendPc.connects]
    | gather n b =>
      simp only [hpc] at h
      obtain ⟨v, hv, rfl⟩ := Option.map_eq_some_iff.mp h
      cases v <;>
        simp [sendGathered, sendFailed_link, givesUp, attemptRaises, SendPc.attempt,
          SendPc.connects, hv]
    | confirm n f =>
      simp only [hpc] at h
      cases ho : s.confirms.outcome f <;> simp only [sendConfirmed, ho] at h <;> cases h
      all_goals
        simp [sendFailed_link, givesUp, attemptRaises, SendPc.attempt,
          SendPc.connects, ho]
    | sleep n until_ =>
      simp only [hpc] at h
      split at h <;> cases h
      simp [doPublish_link, givesUp, attemptRaises, SendPc.attempt, SendPc.connects]
    | returned | raised =>
      simp only [hpc] at h
      cases h

/-! ## Connections that are kept -/

theorem stopFinally_link (s : AsyncSender) (i : Nat) (failed : Bool) :
    (s.stopFinally i failed).connections = s.connections ∧
      ((s.stopFinally i failed).conn = s.conn ∨
        (s.stopFinally i failed).conn = none ∧ s.connected = false) := by
  unfold stopFinally
  dsimp only
  split
  · exact ⟨rfl, .inl rfl⟩
  · next c hc =>
    split
    · exact ⟨rfl, .inl rfl⟩
    · next hopen =>
      refine ⟨rfl, .inr ⟨rfl, ?_⟩⟩
      simpa [connected, Connections.usable, hc] using hopen

theorem stopFlushed_link : (s.stopFlushed i).connections = s.connections ∧
    ((s.stopFlushed i).conn = s.conn ∨
      (s.stopFlushed i).conn = none ∧ s.connected = false) := by
  have hfin := stopFinally_link s.cancelFlusher i false
  unfold stopFlushed
  dsimp only
  split
  · exact hfin
  · split
    · exact ⟨rfl, .inl rfl⟩
    · exact hfin

/-- What a step of `stop` does to the connection, unless it closes one. -/
theorem stop_link (h : s.stop i raises = some t) :
    (∃ c failed, s.stops[i]? = some (.closeConnection c failed) ∧ raises = false ∧
      t.conn = none ∧ t.connections = s.connections.close c) ∨
    ((∀ c failed, s.stops[i]? = some (.closeConnection c failed) → raises = true) ∧
      t.connections = s.connections ∧
      (t.conn = s.conn ∨ t.conn = none ∧ s.connected = false)) := by
  obtain ⟨old, hold, h⟩ := Option.bind_eq_some_iff.mp h
  have hother : (∀ c failed, old ≠ .closeConnection c failed) → t.connections = s.connections ∧
      (t.conn = s.conn ∨ t.conn = none ∧ s.connected = false) →
      (∀ c failed, s.stops[i]? = some (.closeConnection c failed) → raises = true) ∧
      t.connections = s.connections ∧ (t.conn = s.conn ∨ t.conn = none ∧ s.connected = false) :=
    fun hne ht => ⟨fun c failed hc => absurd (Option.some.inj (hold.symm.trans hc)) (hne c failed),
      ht⟩
  cases old with
  | begin =>
    cases h
    refine .inr (hother nofun ?_)
    split
    · exact stopFlushed_link
    · exact ⟨rfl, .inl rfl⟩
  | gather b =>
    obtain ⟨v, -, rfl⟩ := Option.map_eq_some_iff.mp h
    refine .inr (hother nofun ?_)
    cases v with
    | cancelled => exact stopFinally_link _ _ _
    | ok | failed => exact stopFlushed_link
  | closeChannel k =>
    cases h
    refine .inr (hother nofun ?_)
    split
    · exact stopFinally_link _ _ _
    · exact stopFinally_link (s.shutChannel k) _ _
  | closeConnection c failed =>
    cases h
    cases raises with
    | true => exact .inr ⟨fun _ _ _ => rfl, rfl, .inl rfl⟩
    | false => exact .inl ⟨c, failed, hold, rfl, rfl, rfl⟩
  | returned | raised => cases h

/-- The step drops no open connection: a factory returns, and a `send` gives up,
only while the held connection is not open, and `stop` forgets no connection but
the one it has closed. -/
def keeping (self : Config) (s : AsyncSender) : Action → Bool
  | .send i raises draw => match s.sends[i]? with
    | some call =>
      !(s.connected && (s.givesUp self raises draw call.pc || call.pc.connects raises))
    | none => true
  | .start i raises _ => match s.starts[i]? with
    | some (.going pc) => !(s.connected && connects raises pc)
    | _ => true
  | .stop i raises => match s.stops[i]? with
    | some (.closeConnection c _) => raises || s.conn == some c || !s.connected
    | _ => true
  | _ => true

theorem onlyOpen_send_iff {call : SendCall} (hcall : s.sends[i]? = some call)
    (h : s.connections.OnlyOpen s.conn) (ht : s.send self i raises draw = some t) :
    t.connections.OnlyOpen t.conn ↔ keeping self s (.send i raises draw) = true := by
  have hlink := send_link hcall ht
  simp only [keeping, hcall]
  show t.link.2.OnlyOpen t.link.1 ↔ _
  rw [hlink]
  cases hg : s.givesUp self raises draw call.pc with
  | true =>
    simp only [↓reduceIte, Bool.true_or, Bool.and_true, Bool.not_eq_true']
    exact h.forget_iff
  | false =>
    simp only [Bool.false_eq_true, ↓reduceIte, Bool.false_or]
    cases hcon : call.pc.connects raises with
    | true =>
      simp only [↓reduceIte, Bool.and_true, Bool.not_eq_true']
      exact h.connect_iff
    | false => exact iff_of_true h (by simp)

/-- **A step leaks no connection exactly if it is keeping.** -/
theorem onlyOpen_step_iff {a : Action} (h : s.connections.OnlyOpen s.conn)
    (ht : s.step self a = some t) : t.connections.OnlyOpen t.conn ↔ keeping self s a = true := by
  cases a with
  | callSend | settle | callStop | loseChannel => cases ht; exact iff_of_true h rfl
  | send i raises draw =>
    obtain ⟨call, hcall, -⟩ := Option.bind_eq_some_iff.mp ht
    exact onlyOpen_send_iff hcall h ht
  | callStart =>
    cases ht
    have hlink : s.startBegin.1.link = s.link := by
      unfold startBegin callFactory
      split <;> rfl
    refine iff_of_true ?_ rfl
    show s.startBegin.1.link.2.OnlyOpen s.startBegin.1.link.1
    rw [hlink]
    exact h
  | start i raises draw =>
    obtain ⟨starting, hst, ht⟩ := Option.bind_eq_some_iff.mp ht
    cases starting with
    | returned | raised => cases ht
    | going pc =>
      simp only at ht
      split at ht
      · cases ht
      · obtain ⟨p, hp, rfl⟩ := Option.map_eq_some_iff.mp ht
        simp only [keeping, hst]
        show p.1.link.2.OnlyOpen p.1.link.1 ↔ _
        rw [(startStep_link hp).1]
        cases hcon : connects raises pc with
        | true =>
          simp only [↓reduceIte, Bool.and_true, Bool.not_eq_true']
          exact h.connect_iff
        | false => exact iff_of_true h (by simp)
  | stop i raises =>
    rcases stop_link ht with ⟨c, failed, hc, rfl, hconn, hcs⟩ | ⟨hne, hcs, hconn⟩
    · rw [hconn, hcs, h.close_iff]
      simp [keeping, hc, connected]
    · refine iff_of_true ?_ ?_
      · rw [hcs]
        rcases hconn with hconn | ⟨hconn, hno⟩
        · rwa [hconn]
        · rw [hconn]
          exact h.forget_iff.mpr hno
      · simp only [keeping]
        split
        · next c failed hc => simp [hne c failed hc]
        · rfl
  | flush =>
    have hlink : t.link = s.link := by
      obtain ⟨flusher, -, ht⟩ := Option.bind_eq_some_iff.mp ht
      cases flusher with
      | begin => cases ht; rfl
      | sleep until_ =>
        simp only at ht
        split at ht <;> cases ht
        split <;> rfl
      | gather b =>
        obtain ⟨v, -, rfl⟩ := Option.map_eq_some_iff.mp ht
        cases v <;> rfl
    refine iff_of_true ?_ rfl
    show t.link.2.OnlyOpen t.link.1
    rw [hlink]
    exact h
  | gathered b =>
    obtain ⟨confirms, -, rfl⟩ := Option.map_eq_some_iff.mp ht
    exact iff_of_true h rfl
  | tick dt =>
    obtain ⟨-, rfl⟩ := tick_cases ht
    exact iff_of_true h rfl
  | lose c => cases ht; exact iff_of_true h.lose rfl

/-- A call of `stop` that ends in its `finally` holds no connection any more. -/
theorem stopFinally_end {failed : Bool} (hi : i < s.stops.length)
    (hend : (s.stopFinally i failed).stops[i]? = some .returned ∨
      (s.stopFinally i failed).stops[i]? = some .raised) :
    (s.stopFinally i failed).conn = none := by
  unfold stopFinally at hend ⊢
  dsimp only at hend ⊢
  split
  · next hc => exact hc
  · next c hc =>
    split
    · next hopen => simp [hc, hopen, stopAt, hi] at hend
    · rfl

theorem stopFlushed_end (hi : i < s.stops.length)
    (hend : (s.stopFlushed i).stops[i]? = some .returned ∨
      (s.stopFlushed i).stops[i]? = some .raised) : (s.stopFlushed i).conn = none := by
  have hi' : i < s.cancelFlusher.stops.length := hi
  unfold stopFlushed at hend ⊢
  dsimp only at hend ⊢
  cases hc : s.cancelFlusher.channel with
  | none =>
    simp only [hc] at hend ⊢
    exact stopFinally_end hi' hend
  | some k =>
    simp only [hc] at hend ⊢
    split
    · next hopen => simp [hopen, stopAt, hi'] at hend
    · next hopen => exact stopFinally_end hi' (by simpa [hopen] using hend)

theorem stop_end (ht : s.stop i raises = some t)
    (hclose : ∀ c failed, s.stops[i]? = some (.closeConnection c failed) → raises = false)
    (hend : t.stops[i]? = some .returned ∨ t.stops[i]? = some .raised) : t.conn = none := by
  obtain ⟨old, hold, ht⟩ := Option.bind_eq_some_iff.mp ht
  have hi : i < s.stops.length := (List.getElem?_eq_some_iff.mp hold).1
  cases old with
  | begin =>
    cases ht
    split at hend
    · next hnil => rw [if_pos hnil]; exact stopFlushed_end hi hend
    · simp [stopAt, flushConfirms, hi] at hend
  | gather b =>
    obtain ⟨v, -, rfl⟩ := Option.map_eq_some_iff.mp ht
    cases v with
    | cancelled => exact stopFinally_end hi hend
    | ok | failed => exact stopFlushed_end hi hend
  | closeChannel k =>
    cases ht
    split
    · next hr => exact stopFinally_end hi (by simpa [hr] using hend)
    · next hr => exact stopFinally_end (s := s.shutChannel k) hi (by simpa [hr] using hend)
  | closeConnection c failed =>
    cases ht
    simp [hclose c failed hold, stopAt]
  | returned | raised => cases ht

/-- **No connection is leaked in a keeping run**: the only connection that can be
open is the one held.  The next step keeps that exactly if it is keeping.  A
`stop` whose `close` does not raise leaves none open. -/
theorem only_held_open (hs : (machine self).Reach (fun s a => keeping self s a = true) s) :
    s.connections.OnlyOpen s.conn ∧
    (∀ a t, s.step self a = some t →
      (t.connections.OnlyOpen t.conn ↔ keeping self s a = true)) ∧
    ∀ i raises t, s.step self (.stop i raises) = some t →
      keeping self s (.stop i raises) = true →
      (∀ c failed, s.stops[i]? = some (.closeConnection c failed) → raises = false) →
      (t.stops[i]? = some .returned ∨ t.stops[i]? = some .raised) → t.connections.AllClosed := by
  have h : s.connections.OnlyOpen s.conn :=
    hs.invariant (P := fun s => s.connections.OnlyOpen s.conn) (fun c hc => absurd hc (by
      simp [machine, initial, Connections.isOpen])) fun s a t _ ha h ht =>
        (onlyOpen_step_iff h ht).mpr ha
  refine ⟨h, fun a t ht => onlyOpen_step_iff h ht, ?_⟩
  intro i raises t ht hk hclose hend
  have hopen := (onlyOpen_step_iff h ht).mpr hk
  rw [stop_end ht hclose hend] at hopen
  exact hopen.allClosed rfl

end

/-! ## A connection that is leaked -/

def idle (s : AsyncSender) : Bool :=
  s.sends.all (fun call => call.pc == .returned || call.pc == .raised) &&
    s.starts.all (fun starting => match starting with
      | .going _ => false
      | _ => true) &&
    s.stops.all (fun pc => pc == .returned || pc == .raised)

/-- Neither confirms nor batches, and the default retry policy. -/
def plain : Config where
  confirmDelivery := false
  retryPolicy := ⟨some 5, 1 / 4, 5, 2, 1 / 10⟩
  confirmBatchSize := 0
  confirmFlushInterval := 0
  routingKey := some "all"

/-- One `send` connects, publishes and returns; `channel()` raises in the first
attempt if `retried`. -/
def connectRun (retried : Bool) : List Action :=
  [.callSend [1] none, .send 0 false 0, .send 0 false 0] ++
    (if retried then [.send 0 true 0, .tick 1, .send 0 false 0, .send 0 false 0] else []) ++
    [.send 0 false 0, .send 0 false 0, .settle 0 true, .send 0 false 0]

def sentOnce (retried : Bool) : AsyncSender :=
  ((machine plain).runIn (fun s a => retried || keeping plain s a) initial
    (connectRun retried)).getD initial

theorem sentOnce_path (retried : Bool) :
    (machine plain).Reach (fun s a => (retried || keeping plain s a) = true) (sentOnce retried) :=
  Machine.path_of_isSome (by cases retried <;> decide +kernel) initial

theorem only_held_open_sent :
    (sentOnce false).connections.OnlyOpen (sentOnce false).conn ∧
    (∀ a t, (sentOnce false).step plain a = some t →
      (t.connections.OnlyOpen t.conn ↔ keeping plain (sentOnce false) a = true)) ∧
    ∀ i raises t, (sentOnce false).step plain (.stop i raises) = some t →
      keeping plain (sentOnce false) (.stop i raises) = true →
      (∀ c failed, (sentOnce false).stops[i]? = some (.closeConnection c failed) →
        raises = false) →
      (t.stops[i]? = some .returned ∨ t.stops[i]? = some .raised) → t.connections.AllClosed :=
  only_held_open ((sentOnce_path false).mono fun _ _ h => h)

/-- The first connection is open for ever: `start` was tried again after
`channel()` had raised. -/
theorem connection_leaked : ∃ s, (machine plain).Reach Machine.anyStep s ∧ s.idle = true ∧
    s.conn = some 1 ∧ s.connections.isOpen 0 = true ∧ ¬ s.connections.OnlyOpen s.conn := by
  have hconn : (sentOnce true).conn = some 1 := by decide +kernel
  have hopen : (sentOnce true).connections.isOpen 0 = true := by decide +kernel
  refine ⟨sentOnce true, (sentOnce_path true).mono fun _ _ _ => trivial, by decide +kernel, hconn,
    hopen, fun h => ?_⟩
  rw [hconn] at h
  exact absurd (h 0 hopen) (by simp)

end AsyncSender

end MqAdapters
