import MqAdapters.AsyncSender.Links
import MqAdapters.AsyncSender.Steps
import Mathlib.Data.List.DropRight

/-!
# When `start` returns with all set up

`start` looks at `self._conn` alone, and a set-up stores the connection, the
channel and the exchange at three different awaits.  What a run has logged of
the set-ups (`Event`) tells whether the connection that is held has the other
two.

* `halfSetUp`: the connection held is open, and a task is still setting it up, its
  set-up has failed past the factory, or channel and exchange were reset while it
  was held, which `stop` does before it closes it.
* `orderly`: an attempt of `send` does not begin while that is so, and a channel was
  opened since the last reset when `declare_exchange` returns.
* `Explained`: in every run, a connection that is held and not `halfSetUp` has been
  set up, and neither channel nor exchange was reset since.
* `start_ready_iff`: a call of `start` inside `send` that returns has channel and
  exchange set exactly if the step is orderly.
-/

namespace MqAdapters

open Python Theory

namespace AsyncSender

/-! ## The set-ups -/

/-- The connection of each channel. -/
def homes (s : AsyncSender) : List Nat := s.channels.map Channel.connection

/-- The connection that `start` is setting up: the factory has returned it. -/
def settingUp (s : AsyncSender) : StartPc → Option Nat
  | .channel _ c => some c
  | .declare _ k => s.homes[k]?
  | .factory _ | .sleep _ _ => none

def SendPc.start : SendPc → Option StartPc
  | .starting _ pc => some pc
  | _ => none

def Starting.pc : Starting → Option StartPc
  | .going pc => some pc
  | _ => none

/-- The connections that calls of `start` are setting up, inside `send` or not. -/
def setups (s : AsyncSender) : List Nat :=
  (s.sends.map (·.pc.start) ++ s.starts.map Starting.pc).filterMap fun pc => pc.bind s.settingUp

/-- What a step does that matters to the set-up of a connection. -/
inductive Event
  /-- `channel()` returns -/
  | opened (c : Nat)
  /-- `declare_exchange` returns -/
  | finished (c : Nat)
  /-- one of the two raises -/
  | failed (c : Nat)
  /-- channel and exchange are set to `None`, while `conn` is held -/
  | reset (conn : Option Nat)
  deriving DecidableEq

def Event.isReset : Event → Bool
  | .reset _ => true
  | _ => false

def Event.isOpened : Event → Bool
  | .opened _ => true
  | _ => false

/-- What a step of `start` says. -/
def startTells (s : AsyncSender) (raises : Bool) (pc : StartPc) : Option Event :=
  (s.settingUp pc).map fun c =>
    if raises then .failed c else match pc with
      | .channel _ _ => .opened c
      | _ => .finished c

/-- A step of `stop` comes to its `finally`. -/
def reachesFinally (s : AsyncSender) : StopPc → Bool
  | .begin => s.confirms.collected.isEmpty && !s.channel.any s.channelOpen
  | .gather b => match s.confirms.result b with
    | some .cancelled => true
    | some _ => !s.channel.any s.channelOpen
    | none => false
  | .closeChannel _ => true
  | .closeConnection _ _ | .returned | .raised => false

def tells (self : Config) (s : AsyncSender) : Action → Option Event
  | .send i raises draw => (s.sends[i]?).bind fun call =>
    if s.givesUp self raises draw call.pc then some (.reset s.conn)
    else call.pc.start.bind (s.startTells raises)
  | .start i raises _ => (s.starts[i]?).bind fun starting =>
    starting.pc.bind (s.startTells raises)
  | .stop i _ => (s.stops[i]?).bind fun pc =>
    if s.reachesFinally pc then some (.reset s.conn) else none
  | _ => none

/-- What was said since the last reset. -/
def sinceReset (log : List Event) : List Event := log.rtakeWhile fun e => !e.isReset

/-- The connection held is open, and it is still being set up, its set-up has
failed, or it was held at a reset. -/
def halfSetUp (s : AsyncSender) (log : List Event) : Bool :=
  s.conn.any fun c => s.connections.isOpen c &&
    (s.setups.contains c || log.contains (.failed c) || log.contains (.reset (some c)))

/-- No attempt begins while the connection is half set up, and a channel was opened
since the last reset when the exchange is declared. -/
def orderly (s : AsyncSender) (log : List Event) : SendPc → Bool
  | .begin | .sleep _ _ => !s.halfSetUp log
  | .starting _ (.declare _ _) => (sinceReset log).any Event.isOpened
  | _ => true

/-! ## What a step does to the set-ups -/

section

variable {self : Config} {s t u : AsyncSender} {i attempt : Nat} {raises : Bool} {draw : ℚ}
  {e : Option Event} {P Q R : Nat → Prop} {log : List Event}

/-- What the set-ups read of the sender. -/
def core (s : AsyncSender) : Option Nat × Option Nat × Option Nat × Nat × List Nat :=
  (s.conn, s.channel, s.exchange, s.connections.length, s.homes)

theorem core_eq : t.core = s.core ↔ t.conn = s.conn ∧ t.channel = s.channel ∧
    t.exchange = s.exchange ∧ t.connections.length = s.connections.length ∧
    t.homes = s.homes := by
  simp [core]

/-- What a step that says `e` does to channel and exchange.  `P` holds of the
connections being set up. -/
def Said (s : AsyncSender) (P : Nat → Prop) (t : AsyncSender) : Option Event → Prop
  | none => t.channel = s.channel ∧ (s.exchange.isSome = true → t.exchange.isSome = true) ∧
      t.homes = s.homes
  | some (.opened c) => P c ∧ t.channel.isSome = true ∧ t.exchange = s.exchange ∧
      t.homes = s.homes ++ [c]
  | some (.finished c) => P c ∧ c ∈ s.homes ∧ t.channel = s.channel ∧
      t.exchange.isSome = true ∧ t.homes = s.homes
  | some (.failed c) => P c ∧ t.channel = s.channel ∧ t.exchange = s.exchange ∧
      t.homes = s.homes
  | some (.reset conn) => conn = s.conn ∧ t.channel = none ∧ t.exchange = none ∧
      t.homes = s.homes

/-- **A step that says `e`**: the connections being set up are those with `P` before
it and those with `Q` after it. -/
structure Shift (s : AsyncSender) (P : Nat → Prop) (e : Option Event) (t : AsyncSender)
    (Q : Nat → Prop) : Prop where
  begun : ∀ c, Q c → P c ∨ c = s.connections.length ∧ c < t.connections.length
  ended : ∀ c, P c → Q c ∨ e = some (.finished c) ∨ e = some (.failed c) ∨ t.conn = none
  conn : t.conn = s.conn ∨ t.conn = none ∨ e = none ∧ t.conn = some s.connections.length ∧
    Q s.connections.length
  connections : s.connections.length ≤ t.connections.length
  said : Said s P t e

/-- A step that leaves everything as it is, but for set-ups before the factory has
returned. -/
theorem Shift.quiet (h : t.core = s.core) (hQ : ∀ c, Q c ↔ P c) : Shift s P none t Q := by
  obtain ⟨hconn, hchannel, hexchange, hlength, hhomes⟩ := core_eq.mp h
  refine ⟨fun c hc => .inl ((hQ c).mp hc), fun c hc => .inl ((hQ c).mpr hc), .inl hconn, hlength.ge,
    hchannel, fun hx => ?_, hhomes⟩
  rw [hexchange]
  exact hx

/-- Channel and exchange are reset, and the connection may be forgotten. -/
theorem Shift.reset (hchannel : t.channel = none) (hexchange : t.exchange = none)
    (hhomes : t.homes = s.homes) (hlength : t.connections.length = s.connections.length)
    (hQ : ∀ c, Q c → P c) (hconn : t.conn = none ∨ t.conn = s.conn ∧ ∀ c, P c → Q c) :
    Shift s P (some (.reset s.conn)) t Q := by
  refine ⟨fun c hc => .inl (hQ c hc), fun c hc => ?_, ?_, hlength.ge, rfl, hchannel, hexchange,
    hhomes⟩
  · rcases hconn with hconn | ⟨-, hP⟩
    · exact .inr (.inr (.inr hconn))
    · exact .inl (hP c hc)
  · exact hconn.symm.imp And.left .inl

/-- What follows a step and leaves everything as it is. -/
theorem Shift.trans_quiet (h : Shift s P e u Q) (hcore : t.core = u.core)
    (hR : ∀ c, R c ↔ Q c) : Shift s P e t R := by
  obtain ⟨hconn, hchannel, hexchange, hlength, hhomes⟩ := core_eq.mp hcore
  refine ⟨?_, ?_, ?_, ?_, ?_⟩
  · intro c hc
    rw [hlength]
    exact h.begun c ((hR c).mp hc)
  · intro c hc
    rw [hR, hconn]
    exact h.ended c hc
  · rw [hR, hconn]
    exact h.conn
  · rw [hlength]
    exact h.connections
  · have hsaid := h.said
    rcases e with _ | ⟨_ | _ | _ | _⟩ <;> simpa only [Said, hchannel, hexchange, hhomes] using hsaid

/-- The channels that are there stay where they are. -/
theorem Shift.homes (h : Shift s P e t Q) :
    t.homes = s.homes ∨ ∃ c, e = some (.opened c) ∧ t.homes = s.homes ++ [c] := by
  have hsaid := h.said
  rcases e with _ | ⟨c | c | c | conn⟩
  · exact .inl hsaid.2.2
  · exact .inr ⟨c, rfl, hsaid.2.2.2⟩
  · exact .inl hsaid.2.2.2.2
  · exact .inl hsaid.2.2.2
  · exact .inl hsaid.2.2.2

theorem settingUp_congr (h : t.homes = s.homes) : t.settingUp = s.settingUp := by
  funext pc
  cases pc <;> simp [settingUp, h]

/-- A set-up that takes no part in the step is still that of its connection. -/
theorem Shift.settingUp_mono (h : Shift s P e t Q) {pc : StartPc} {c : Nat}
    (hc : s.settingUp pc = some c) : t.settingUp pc = some c := by
  rcases h.homes with hhomes | ⟨d, -, hhomes⟩
  · rw [settingUp_congr hhomes]
    exact hc
  · cases pc with
    | declare n k =>
      simp only [settingUp, hhomes] at hc ⊢
      exact (List.getElem?_append_left (List.getElem?_eq_some_iff.mp hc).1).trans hc
    | channel | factory | sleep => exact hc

theorem Shift.settingUp_of (h : Shift s P e t Q) {pc : StartPc} {c : Nat}
    (hc : t.settingUp pc = some c) : s.settingUp pc = some c ∨ P c := by
  rcases h.homes with hhomes | ⟨d, he, hhomes⟩
  · rw [settingUp_congr hhomes] at hc
    exact .inl hc
  · cases pc with
    | declare n k =>
      simp only [settingUp, hhomes, getElem?_concat] at hc ⊢
      split at hc
      · next hk =>
        obtain rfl := Option.some.inj hc
        have hsaid := h.said
        rw [he] at hsaid
        exact .inr hsaid.1
      · exact .inl hc
    | channel | factory | sleep => exact .inl hc

/-! ### `start` -/

theorem startFlusher_core (self : Config) (s : AsyncSender) :
    (s.startFlusher self).core = s.core := by
  unfold startFlusher
  split <;> rfl

theorem startBegin_core : s.startBegin.1.core = s.core := by
  unfold startBegin
  split <;> rfl

/-- A call of `start` sets nothing up in its first step. -/
theorem startBegin_setup (t : AsyncSender) : s.startBegin.2.pc.bind t.settingUp = none := by
  unfold startBegin
  split <;> rfl

theorem startFailed_fst : (s.startFailed self attempt draw).1 = s := by
  unfold startFailed
  split <;> rfl

theorem startFailed_setup (t : AsyncSender) :
    (s.startFailed self attempt draw).2.pc.bind t.settingUp = none := by
  unfold startFailed
  split <;> rfl

/-- An attempt of `start` that fails says of the connection it was setting up that
its set-up failed, and leaves the sender as it is. -/
theorem startFailed_shift (self : Config) (s : AsyncSender) (pc : StartPc) (attempt : Nat)
    (draw : ℚ) :
    Shift s (fun c => s.settingUp pc = some c) (s.startTells true pc)
      (s.startFailed self attempt draw).1 (fun c =>
        (s.startFailed self attempt draw).2.pc.bind
          (s.startFailed self attempt draw).1.settingUp = some c) := by
  refine ⟨fun c hc => ?_, fun c hc => ?_, ?_, ?_, ?_⟩
  · rw [startFailed_setup] at hc
    cases hc
  · exact .inr (.inr (.inl (by simp [startTells, hc])))
  · exact .inl (by rw [startFailed_fst])
  · rw [startFailed_fst]
  · rw [startFailed_fst]
    cases hpc : s.settingUp pc with
    | none => simp [startTells, hpc, Said]
    | some d => simp [startTells, hpc, Said]

/-- **What a step of `start` does to the set-up of a connection.** -/
theorem startStep_shift {pc : StartPc} {p : AsyncSender × Starting}
    (h : s.startStep self raises draw pc = some p) :
    Shift s (fun c => s.settingUp pc = some c) (s.startTells raises pc) p.1
      (fun c => p.2.pc.bind p.1.settingUp = some c) := by
  cases pc with
  | factory n =>
    cases h
    cases raises with
    | true => exact startFailed_shift self s (.factory n) n draw
    | false =>
      refine ⟨fun c hc => .inr ?_, nofun, .inr (.inr ⟨rfl, rfl, rfl⟩), ?_, rfl, id, rfl⟩
      · obtain rfl : s.connections.length = c := Option.some.inj hc
        simp [Connections.connect]
      · simp [Connections.connect]
  | channel n d =>
    cases h
    cases raises with
    | true => exact startFailed_shift self s (.channel n d) n draw
    | false =>
      have hset : ∀ c, ((Starting.going (.declare n s.channels.length)).pc.bind
          (settingUp { s with
            channel := some s.channels.length
            channels := s.channels ++ [⟨d, true⟩] }) = some c) ↔ d = c := by
        intro c
        simp [Starting.pc, settingUp, homes]
      refine ⟨fun c hc => .inl ?_, fun c hc => .inl ?_, .inl rfl, le_refl _, rfl, rfl, rfl, ?_⟩
      · exact congrArg some ((hset c).mp hc)
      · exact (hset c).mpr (Option.some.inj hc)
      · simp [homes]
  | declare n k =>
    cases h
    cases raises with
    | true => exact startFailed_shift self s (.declare n k) n draw
    | false =>
      obtain ⟨hconn, hchannel, hexchange, hlength, hhomes⟩ :=
        core_eq.mp (startFlusher_core self { s with exchange := some k })
      refine ⟨nofun, fun c hc => ?_, .inl hconn, hlength.ge, ?_⟩
      · exact .inr (.inl (by simp [startTells, hc]))
      · cases hk : s.settingUp (.declare n k) with
        | none =>
          simp only [startTells, hk, Option.map_none]
          exact ⟨hchannel, fun _ => by rw [if_neg (by simp), hexchange]; rfl, hhomes⟩
        | some d =>
          simp only [startTells, hk, Option.map_some]
          refine ⟨rfl, List.mem_of_getElem? (i := k) hk, hchannel, ?_, hhomes⟩
          rw [if_neg (by simp), hexchange]
          rfl
  | sleep n until_ =>
    simp only [startStep] at h
    split at h <;> cases h
    exact .quiet rfl fun c => Iff.rfl

/-- A call of `start` that raises leaves the sender as it is. -/
theorem startStep_raised {pc : StartPc} {p : AsyncSender × Starting}
    (h : s.startStep self raises draw pc = some p) (hp : p.2 = .raised) : p.1 = s := by
  cases pc with
  | factory | channel | declare =>
    cases h
    cases raises with
    | true => exact startFailed_fst
    | false => cases hp
  | sleep n until_ =>
    simp only [startStep] at h
    split at h <;> cases h
    cases hp

/-! ### `send` -/

/-- Where a task is in `start`: a call of `send`, or of `start` itself. -/
def point (s : AsyncSender) : Nat ⊕ Nat → Option StartPc
  | .inl i => (s.sends[i]?).bind fun call => call.pc.start
  | .inr i => (s.starts[i]?).bind Starting.pc

theorem point_sendAt (hi : i < s.sends.length) (pc : SendPc) :
    (s.sendAt i pc).point (.inl i) = pc.start := by
  simp [point, sendAt, hi]

theorem sendAt_settingUp (hi : i < s.sends.length) (pc : SendPc)
    (hpc : pc.start.bind s.settingUp = none) :
    ((s.sendAt i pc).point (.inl i)).bind (s.sendAt i pc).settingUp = none := by
  rw [point_sendAt hi]
  exact hpc

/-- The `i`-th `send` goes on at a point where it sets nothing up; if it has given
up, the sender is reset. -/
def Leaves (s : AsyncSender) (i : Nat) (gaveUp : Bool) (t : AsyncSender) : Prop :=
  (t.point (.inl i)).bind t.settingUp = none ∧
  t.channel = (if gaveUp then none else s.channel) ∧
  t.exchange = (if gaveUp then none else s.exchange) ∧
  t.conn = (if gaveUp then none else s.conn) ∧
  t.connections.length = s.connections.length ∧ t.homes = s.homes

theorem sendAt_leaves (hi : i < s.sends.length) {pc : SendPc}
    (hpc : pc.start.bind s.settingUp = none) : s.Leaves i false (s.sendAt i pc) :=
  ⟨sendAt_settingUp hi pc hpc, rfl, rfl, rfl, rfl, rfl⟩

theorem sendFailed_leaves (self : Config) (attempt : Nat) (draw : ℚ) (hi : i < s.sends.length) :
    s.Leaves i (s.retryAt self attempt draw).isNone (s.sendFailed self i attempt draw) := by
  unfold sendFailed
  cases s.retryAt self attempt draw with
  | none => exact ⟨sendAt_settingUp hi .raised rfl, rfl, rfl, rfl, rfl, rfl⟩
  | some r => exact sendAt_leaves hi rfl

/-- With an exchange, publishing leaves the sender as it is. -/
theorem publish_leaves (self : Config) (call : SendCall) (attempt : Nat) (draw : ℚ)
    (hi : i < s.sends.length) :
    s.Leaves i (s.exchange.isNone && (s.retryAt self attempt draw).isNone)
      (s.publish self i call attempt draw) := by
  unfold publish
  cases hx : s.exchange with
  | none => exact sendFailed_leaves self attempt draw hi
  | some exchange =>
    dsimp only
    split
    · split
      · exact ⟨sendAt_settingUp hi (.gather _ _) rfl, rfl, hx.symm, rfl, rfl, rfl⟩
      · exact ⟨sendAt_settingUp hi .returned rfl, rfl, hx.symm, rfl, rfl, rfl⟩
    · exact ⟨sendAt_settingUp hi (.confirm _ _) rfl, rfl, hx.symm, rfl, rfl, rfl⟩

theorem doPublish_leaves (self : Config) (call : SendCall) (attempt : Nat) (draw : ℚ)
    (hi : i < s.sends.length) :
    s.Leaves i ((s.connected && s.exchange.isNone) && (s.retryAt self attempt draw).isNone)
      (s.doPublish self i call attempt draw) := by
  unfold doPublish
  split
  · next h =>
    simp only [Bool.and_eq_true] at h
    have hleaves := publish_leaves self call attempt draw hi
    rwa [h.2, Bool.true_and]
  · unfold startBegin
    split
    · next hc =>
      rw [hc, Bool.true_and]
      exact publish_leaves self call attempt draw hi
    · next hc =>
      rw [Bool.not_eq_true] at hc
      rw [hc, Bool.false_and, Bool.false_and]
      exact ⟨sendAt_settingUp hi (.starting _ _) rfl, rfl, rfl, rfl, rfl, rfl⟩

/-- A `send` that gives up resets the sender, whatever it was setting up. -/
theorem Leaves.reset (h : s.Leaves i true t) : Shift s P (some (.reset s.conn)) t
    (fun c => (t.point (.inl i)).bind t.settingUp = some c) := by
  obtain ⟨hset, hchannel, hexchange, hconn, hlength, hhomes⟩ := h
  refine .reset hchannel hexchange hhomes hlength (fun c hc => ?_) (.inl hconn)
  rw [hset] at hc
  cases hc

/-- A `send` that does not give up leaves the sender as it is after `start`. -/
theorem Leaves.follows (h : u.Leaves i false t) (hu : Shift s P e u Q) (hQ : ∀ c, ¬ Q c) :
    Shift s P e t (fun c => (t.point (.inl i)).bind t.settingUp = some c) := by
  obtain ⟨hset, hchannel, hexchange, hconn, hlength, hhomes⟩ := h
  refine hu.trans_quiet (core_eq.mpr ⟨hconn, hchannel, hexchange, hlength, hhomes⟩) fun c =>
    iff_of_false ?_ (hQ c)
  rw [hset]
  exact nofun

/-- A `send` that sets nothing up says nothing, but for the reset when it gives up. -/
theorem Leaves.shift {gaveUp : Bool} (h : s.Leaves i gaveUp t) (hP : ∀ c, ¬ P c) :
    Shift s P (if gaveUp then some (.reset s.conn) else none) t
      (fun c => (t.point (.inl i)).bind t.settingUp = some c) := by
  cases gaveUp with
  | true => exact h.reset
  | false => exact h.follows (.quiet (Q := P) rfl fun _ => Iff.rfl) hP

/-- **What a step of `send` does to the set-up of a connection.** -/
theorem send_shift (h : s.send self i raises draw = some t) :
    Shift s (fun c => (s.point (.inl i)).bind s.settingUp = some c)
      (s.tells self (.send i raises draw)) t
      (fun c => (t.point (.inl i)).bind t.settingUp = some c) := by
  obtain ⟨call, hcall, h⟩ := Option.bind_eq_some_iff.mp h
  have hi : i < s.sends.length := (List.getElem?_eq_some_iff.mp hcall).1
  have hpoint : s.point (.inl i) = call.pc.start := by simp [point, hcall]
  have hno : ∀ c, ¬ (none : Option Nat) = some c := fun c hc => by cases hc
  simp only [tells, hcall, hpoint, Option.bind_some]
  split at h
  · cases h
  · cases hpc : call.pc with
    | begin =>
      simp only [hpc] at h
      cases h
      exact (doPublish_leaves self call _ draw hi).shift hno
    | sleep n until_ =>
      simp only [hpc] at h
      split at h <;> cases h
      exact (doPublish_leaves self call _ draw hi).shift hno
    | starting n pc =>
      simp only [hpc] at h
      obtain ⟨⟨u, out⟩, hp, rfl⟩ := Option.map_eq_some_iff.mp h
      have hu := startStep_shift hp
      have hi' : i < u.sends.length := by
        rw [(startStep_alongside hp).sends]
        exact hi
      obtain ⟨-, -, hout⟩ := startStep_link hp
      cases out with
      | going pc' =>
        have hraises : s.startRaises self raises draw pc = false := hout
        rw [givesUp, attemptRaises, hraises, Bool.false_and, if_neg Bool.false_ne_true]
        refine hu.trans_quiet rfl fun c => ?_
        rw [sendStarting, point_sendAt hi']
        rfl
      | returned =>
        obtain ⟨hraises, -, hx⟩ := hout
        have hleaves := publish_leaves self call n draw hi'
        rw [Option.isNone_eq_false_iff.mpr hx, Bool.false_and] at hleaves
        rw [givesUp, attemptRaises, hraises, Bool.false_and, if_neg Bool.false_ne_true]
        exact hleaves.follows hu hno
      | raised =>
        obtain ⟨hraises, -⟩ := hout
        obtain rfl : u = s := startStep_raised hp rfl
        have hleaves := sendFailed_leaves self n draw hi
        rw [givesUp, attemptRaises, hraises, Bool.true_and, SendPc.attempt]
        cases hr : (u.retryAt self n draw).isNone with
        | true =>
          rw [hr] at hleaves
          exact hleaves.reset
        | false =>
          rw [hr] at hleaves
          exact hleaves.follows hu hno
    | gather n b =>
      simp only [hpc] at h
      obtain ⟨v, hv, rfl⟩ := Option.map_eq_some_iff.mp h
      simp only [givesUp, attemptRaises, hv, SendPc.attempt]
      cases v with
      | ok | cancelled => exact (sendAt_leaves hi rfl).shift hno
      | failed => exact (sendFailed_leaves self n draw hi).shift hno
    | confirm n f =>
      simp only [hpc] at h
      cases ho : s.confirms.outcome f <;> simp only [sendConfirmed, ho] at h <;> cases h
      all_goals simp only [givesUp, attemptRaises, SendPc.attempt, ho]
      case failed.refl => exact (sendFailed_leaves self n draw hi).shift hno
      all_goals exact (sendAt_leaves hi rfl).shift hno
    | returned | raised =>
      simp only [hpc] at h
      cases h

/-! ### `stop` -/

/-- **The `finally` of `stop`** resets channel and exchange, and forgets a
connection that is not open. -/
theorem stopFinally_shift (s : AsyncSender) (i : Nat) (failed : Bool) :
    Shift s P (some (.reset s.conn)) (s.stopFinally i failed) P := by
  have hhold : ∀ pc, Shift s P (some (.reset s.conn))
      ({ s with channel := none, exchange := none }.stopAt i pc) P := fun pc =>
    .reset rfl rfl rfl rfl (fun _ hc => hc) (.inr ⟨rfl, fun _ hc => hc⟩)
  unfold stopFinally
  dsimp only
  split
  · exact hhold _
  · split
    · exact hhold _
    · exact .reset rfl rfl rfl rfl (fun _ hc => hc) (.inl rfl)

theorem stopFlushed_shift (s : AsyncSender) (i : Nat) :
    Shift s P (if !s.channel.any s.channelOpen then some (.reset s.conn) else none)
      (s.stopFlushed i) P := by
  have hfin : Shift s P (some (.reset s.conn)) (s.cancelFlusher.stopFinally i false) P := by
    obtain ⟨hbegun, hended, hconn, hconnections, hsaid⟩ :=
      stopFinally_shift (P := P) s.cancelFlusher i false
    exact ⟨hbegun, hended, hconn, hconnections, hsaid⟩
  unfold stopFlushed
  dsimp only
  cases hk : s.channel with
  | none =>
    rw [show s.cancelFlusher.channel = none from hk]
    exact hfin
  | some k =>
    rw [show s.cancelFlusher.channel = some k from hk, Option.any_some]
    show Shift s P _ (if s.channelOpen k then _ else _) P
    cases s.channelOpen k with
    | true => exact .quiet rfl fun _ => Iff.rfl
    | false => exact hfin

theorem shutChannel_homes (k : Nat) : (s.shutChannel k).homes = s.homes := by
  unfold homes shutChannel
  refine List.ext_getElem? fun j => ?_
  simp only [List.getElem?_map, List.getElem?_modify]
  cases s.channels[j]? <;> split <;> rfl

/-- **What a step of `stop` does to the set-up of a connection.** -/
theorem stop_shift (self : Config) (P : Nat → Prop) (h : s.stop i raises = some t) :
    Shift s P (s.tells self (.stop i raises)) t P := by
  obtain ⟨old, hold, h⟩ := Option.bind_eq_some_iff.mp h
  simp only [tells, hold, Option.bind_some]
  cases old with
  | begin =>
    cases h
    cases hc : s.confirms.collected with
    | nil =>
      simp only [reachesFinally, hc, List.isEmpty_nil, Bool.true_and, if_true]
      exact stopFlushed_shift s i
    | cons p ps =>
      simp only [reachesFinally, hc, List.isEmpty_cons, Bool.false_and]
      exact .quiet rfl fun _ => Iff.rfl
  | gather b =>
    obtain ⟨v, hv, rfl⟩ := Option.map_eq_some_iff.mp h
    simp only [reachesFinally, hv]
    cases v with
    | cancelled => exact stopFinally_shift s i true
    | ok | failed => exact stopFlushed_shift s i
  | closeChannel k =>
    cases h
    cases raises with
    | true => exact stopFinally_shift s i true
    | false =>
      obtain ⟨hbegun, hended, hconn, hconnections, hsaid⟩ :=
        stopFinally_shift (P := P) (s.shutChannel k) i false
      refine ⟨hbegun, hended, hconn, hconnections, ?_⟩
      obtain ⟨hreset, hchannel, hexchange, hhomes⟩ := hsaid
      exact ⟨hreset, hchannel, hexchange, hhomes.trans (shutChannel_homes k)⟩
  | closeConnection c failed =>
    cases h
    cases raises with
    | true => exact .quiet rfl fun _ => Iff.rfl
    | false =>
      refine ⟨fun _ hc => .inl hc, fun _ hc => .inl hc, .inr (.inl rfl), ?_, rfl, id, rfl⟩
      simp [stopAt, Connections.close]
  | returned | raised => cases h

/-! ### All the tasks -/

theorem mem_setups {c : Nat} : c ∈ s.setups ↔ ∃ k, (s.point k).bind s.settingUp = some c := by
  simp only [setups, List.mem_filterMap, List.mem_append, List.mem_map]
  constructor
  · rintro ⟨pc, ⟨call, hcall, rfl⟩ | ⟨starting, hst, rfl⟩, hc⟩
    · obtain ⟨i, hi⟩ := List.mem_iff_getElem?.mp hcall
      exact ⟨.inl i, by simpa [point, hi] using hc⟩
    · obtain ⟨i, hi⟩ := List.mem_iff_getElem?.mp hst
      exact ⟨.inr i, by simpa [point, hi] using hc⟩
  · rintro ⟨i | i, hc⟩
    · obtain ⟨pc, hpc, hc⟩ := Option.bind_eq_some_iff.mp hc
      obtain ⟨call, hcall, hpc⟩ := Option.bind_eq_some_iff.mp hpc
      exact ⟨some pc, .inl ⟨call, List.mem_of_getElem? hcall, hpc⟩, hc⟩
    · obtain ⟨pc, hpc, hc⟩ := Option.bind_eq_some_iff.mp hc
      obtain ⟨starting, hst, hpc⟩ := Option.bind_eq_some_iff.mp hpc
      exact ⟨some pc, .inr ⟨starting, List.mem_of_getElem? hst, hpc⟩, hc⟩

/-- One task moves, and the others stay where they are. -/
theorem Shift.setups {k : Nat ⊕ Nat}
    (h : Shift s (fun c => (s.point k).bind s.settingUp = some c) e t
      (fun c => (t.point k).bind t.settingUp = some c))
    (hne : ∀ j, j ≠ k → t.point j = s.point j) :
    Shift s (· ∈ s.setups) e t (· ∈ t.setups) := by
  have hmono : ∀ c, c ∈ s.setups → (s.point k).bind s.settingUp = some c ∨ c ∈ t.setups := by
    intro c hc
    obtain ⟨j, hj⟩ := mem_setups.mp hc
    by_cases hjk : j = k
    · exact .inl (hjk ▸ hj)
    · obtain ⟨pc, hpc, hj⟩ := Option.bind_eq_some_iff.mp hj
      refine .inr (mem_setups.mpr ⟨j, ?_⟩)
      rw [hne j hjk, hpc]
      exact h.settingUp_mono hj
  have hof : ∀ c, c ∈ t.setups → (t.point k).bind t.settingUp = some c ∨ c ∈ s.setups := by
    intro c hc
    obtain ⟨j, hj⟩ := mem_setups.mp hc
    by_cases hjk : j = k
    · exact .inl (hjk ▸ hj)
    · obtain ⟨pc, hpc, hj⟩ := Option.bind_eq_some_iff.mp hj
      rw [hne j hjk] at hpc
      refine .inr (mem_setups.mpr ?_)
      rcases h.settingUp_of hj with hj | hj
      · exact ⟨j, by rw [hpc]; exact hj⟩
      · exact ⟨k, hj⟩
  refine ⟨?_, ?_, ?_, h.connections, ?_⟩
  · intro c hc
    rcases hof c hc with hc | hc
    · exact (h.begun c hc).imp_left fun hc => mem_setups.mpr ⟨k, hc⟩
    · exact .inl hc
  · intro c hc
    rcases hmono c hc with hc | hc
    · exact (h.ended c hc).imp_left fun hc => mem_setups.mpr ⟨k, hc⟩
    · exact .inl hc
  · rcases h.conn with hconn | hconn | ⟨he, hconn, hc⟩
    · exact .inl hconn
    · exact .inr (.inl hconn)
    · exact .inr (.inr ⟨he, hconn, mem_setups.mpr ⟨k, hc⟩⟩)
  · have hsaid := h.said
    rcases e with _ | ⟨c | c | c | conn⟩
    · exact hsaid
    · exact ⟨mem_setups.mpr ⟨k, hsaid.1⟩, hsaid.2⟩
    · exact ⟨mem_setups.mpr ⟨k, hsaid.1⟩, hsaid.2⟩
    · exact ⟨mem_setups.mpr ⟨k, hsaid.1⟩, hsaid.2⟩
    · exact hsaid

theorem point_of_sends {f : SendCall → SendCall} (hsends : t.sends = s.sends.modify i f)
    (hstarts : t.starts = s.starts) : ∀ j, j ≠ .inl i → t.point j = s.point j := by
  rintro (j | j) hj
  · have hji : i ≠ j := fun h => hj (congrArg _ h.symm)
    simp [point, hsends, hji]
  · simp [point, hstarts]

theorem point_of_starts {starting : Starting} (hsends : t.sends = s.sends)
    (hstarts : t.starts = s.starts.set i starting) : ∀ j, j ≠ .inr i → t.point j = s.point j := by
  rintro (j | j) hj
  · simp [point, hsends]
  · have hji : i ≠ j := fun h => hj (congrArg _ h.symm)
    simp [point, hstarts, hji]

/-- Tasks that arrive set nothing up. -/
theorem mem_setups_append (calls : List SendCall) (startings : List Starting) {c : Nat}
    (hsends : t.sends = s.sends ++ calls) (hstarts : t.starts = s.starts ++ startings)
    (hhomes : t.homes = s.homes) (hcalls : ∀ call ∈ calls, call.pc.start.bind s.settingUp = none)
    (hstartings : ∀ starting ∈ startings, starting.pc.bind s.settingUp = none) :
    c ∈ t.setups ↔ c ∈ s.setups := by
  rw [AsyncSender.setups, AsyncSender.setups, hsends, hstarts, settingUp_congr hhomes]
  simp only [List.map_append, List.filterMap_append, List.mem_append]
  have hnone : ∀ pcs : List (Option StartPc), (∀ pc ∈ pcs, pc.bind s.settingUp = none) →
      c ∉ pcs.filterMap fun pc => pc.bind s.settingUp := by
    intro pcs hpcs hc
    obtain ⟨pc, hpc, hc⟩ := List.mem_filterMap.mp hc
    rw [hpcs pc hpc] at hc
    cases hc
  have h1 := hnone _ (List.forall_mem_map.mpr hcalls)
  have h2 := hnone _ (List.forall_mem_map.mpr hstartings)
  tauto

theorem mem_setups_congr {c : Nat} (hsends : t.sends = s.sends) (hstarts : t.starts = s.starts)
    (hhomes : t.homes = s.homes) : c ∈ t.setups ↔ c ∈ s.setups :=
  mem_setups_append [] [] (by simpa using hsends)
    (by simpa using hstarts) hhomes nofun nofun

/-- No task moves. -/
theorem Shift.still (hcore : t.core = s.core) (hsends : t.sends = s.sends)
    (hstarts : t.starts = s.starts) : Shift s (· ∈ s.setups) none t (· ∈ t.setups) :=
  .quiet hcore fun _ => mem_setups_congr hsends hstarts (core_eq.mp hcore).2.2.2.2

theorem start_shift (h : s.start self i raises draw = some t) :
    Shift s (· ∈ s.setups) (s.tells self (.start i raises draw)) t (· ∈ t.setups) := by
  obtain ⟨starting, hst, h⟩ := Option.bind_eq_some_iff.mp h
  cases starting with
  | returned | raised => cases h
  | going pc =>
    simp only at h
    split at h
    · cases h
    · obtain ⟨p, hp, rfl⟩ := Option.map_eq_some_iff.mp h
      have halong := startStep_alongside hp
      have hi : i < p.1.starts.length := by
        rw [halong.starts]
        exact (List.getElem?_eq_some_iff.mp hst).1
      refine Shift.setups (k := .inr i) ?_ (point_of_starts halong.sends (by rw [halong.starts]))
      have hpoint : s.point (.inr i) = some pc := by simp [point, hst, Starting.pc]
      have hpoint' : point { p.1 with starts := p.1.starts.set i p.2 } (.inr i) = p.2.pc := by
        simp [point, hi]
      rw [hpoint, hpoint', tells, hst]
      exact (startStep_shift hp).trans_quiet rfl fun _ => Iff.rfl

/-- **What a step does to the set-up of a connection.** -/
theorem step_shift {a : Action} (h : s.step self a = some t) :
    Shift s (· ∈ s.setups) (s.tells self a) t (· ∈ t.setups) := by
  cases a with
  | callSend body routingKey =>
    cases h
    exact .quiet rfl fun c => mem_setups_append [_] [] rfl
      (List.append_nil _).symm rfl (by simp [SendPc.start]) nofun
  | send i raises draw =>
    obtain ⟨call, new, -, hsent, -⟩ := send_cases h
    exact (send_shift h).setups (point_of_sends hsent.sends hsent.starts)
  | callStart =>
    cases h
    refine .quiet startBegin_core fun c => mem_setups_append [] [_] ?_ rfl
      (core_eq.mp startBegin_core).2.2.2.2 nofun fun starting hst => ?_
    · exact (startBegin_alongside s).sends.trans (List.append_nil _).symm
    · rw [List.mem_singleton.mp hst]
      exact startBegin_setup s
  | start i raises draw => exact start_shift h
  | stop i raises =>
    obtain ⟨old, new, -, -, hsends, hstarts, -⟩ := stop_cases h
    have hshift := stop_shift self (· ∈ s.setups) h
    have hhomes : t.homes = s.homes := by
      rcases hshift.homes with hhomes | ⟨c, he, -⟩
      · exact hhomes
      · obtain ⟨pc, -, he⟩ := Option.bind_eq_some_iff.mp he
        split at he <;> cases he
    exact hshift.trans_quiet rfl fun _ => mem_setups_congr hsends hstarts hhomes
  | flush =>
    obtain ⟨hsends, hstarts, -⟩ := flush_cases h
    refine .still ?_ hsends hstarts
    obtain ⟨flusher, -, h⟩ := Option.bind_eq_some_iff.mp h
    cases flusher with
    | begin => cases h; rfl
    | sleep until_ =>
      simp only at h
      split at h <;> cases h
      split <;> rfl
    | gather b =>
      obtain ⟨v, -, rfl⟩ := Option.map_eq_some_iff.mp h
      cases v <;> rfl
  | callStop | settle => cases h; exact .still rfl rfl rfl
  | gathered b =>
    obtain ⟨confirms, -, rfl⟩ := Option.map_eq_some_iff.mp h
    exact .still rfl rfl rfl
  | tick dt =>
    obtain ⟨-, rfl⟩ := tick_cases h
    exact .still rfl rfl rfl
  | lose c =>
    cases h
    exact .still (by simp [core, Connections.close, AsyncSender.homes]) rfl rfl
  | loseChannel k =>
    cases h
    exact .still (core_eq.mpr ⟨rfl, rfl, rfl, rfl, shutChannel_homes k⟩) rfl rfl

/-! ## What the log tells -/

theorem sinceReset_append (e : Option Event) : sinceReset (log ++ e.toList) =
    if e.any Event.isReset then [] else sinceReset log ++ e.toList := by
  cases e with
  | none => simp
  | some e =>
    unfold sinceReset
    rw [Option.toList_some, List.rtakeWhile_concat]
    cases he : e.isReset <;> simp [he]

/-- The log explains what is set: a connection that is held is still being set up,
or its set-up has ended, and what was said of it since is not older than the last
reset, unless it was held then. -/
structure Explained (s : AsyncSender) (log : List Event) : Prop where
  setups : ∀ c ∈ s.setups, c < s.connections.length
  homes : ∀ c ∈ s.homes, .opened c ∈ log
  opened : ∀ c, .opened c ∈ log → c < s.connections.length
  finished : ∀ c, .finished c ∈ log → .opened c ∈ log
  channel : s.channel.isSome = (sinceReset log).any Event.isOpened
  exchange : ∀ c, .finished c ∈ sinceReset log → s.exchange.isSome = true
  held : ∀ c, s.conn = some c → c ∈ s.setups ∨ .finished c ∈ log ∨ .failed c ∈ log
  recent : ∀ c, s.conn = some c → .reset (some c) ∉ log →
    (.opened c ∈ log → .opened c ∈ sinceReset log) ∧
      (.finished c ∈ log → .finished c ∈ sinceReset log)

theorem explained_initial : Explained initial [] :=
  ⟨nofun, nofun, nofun, nofun, rfl, nofun, nofun, nofun⟩

/-- The connection that is held after a step is still being set up, or its set-up
has ended. -/
theorem Explained.held_step (h : s.Explained log)
    (hstep : Shift s (· ∈ s.setups) e t (· ∈ t.setups)) {c : Nat} (hc : t.conn = some c) :
    c ∈ t.setups ∨ .finished c ∈ log ++ e.toList ∨ .failed c ∈ log ++ e.toList := by
  rcases hstep.conn with hconn | hconn | ⟨-, hconn, hset⟩
  · rcases h.held c (hconn ▸ hc) with hc' | hc' | hc'
    · rcases hstep.ended c hc' with hc' | rfl | rfl | hnone
      · exact .inl hc'
      · exact .inr (.inl (by simp))
      · exact .inr (.inr (by simp))
      · rw [hnone] at hc
        cases hc
    · exact .inr (.inl (List.mem_append_left _ hc'))
    · exact .inr (.inr (List.mem_append_left _ hc'))
  · rw [hconn] at hc
    cases hc
  · rw [hconn] at hc
    cases hc
    exact .inl hset

/-- What was said of it is not older than the last reset, unless it was held then. -/
theorem Explained.recent_step (h : s.Explained log)
    (hstep : Shift s (· ∈ s.setups) e t (· ∈ t.setups)) {c : Nat} (hc : t.conn = some c)
    (hreset : .reset (some c) ∉ log ++ e.toList) :
    (.opened c ∈ log ++ e.toList → .opened c ∈ sinceReset (log ++ e.toList)) ∧
      (.finished c ∈ log ++ e.toList → .finished c ∈ sinceReset (log ++ e.toList)) := by
  have hreset' : .reset (some c) ∉ log := fun hr => hreset (List.mem_append_left _ hr)
  rcases hstep.conn with hconn | hconn | ⟨rfl, hconn, -⟩
  · rw [hconn] at hc
    obtain ⟨hopened, hfinished⟩ := h.recent c hc hreset'
    have hkept : e.any Event.isReset = false := by
      rcases e with _ | ⟨d | d | d | conn⟩
      case some.reset =>
        obtain ⟨rfl, -⟩ := hstep.said
        exact absurd (List.mem_append_right _ (by simp [hc])) hreset
      all_goals rfl
    rw [sinceReset_append, hkept, if_neg Bool.false_ne_true]
    simp only [List.mem_append]
    exact ⟨Or.imp_left hopened, Or.imp_left hfinished⟩
  · rw [hconn] at hc
    cases hc
  · -- of the connection that the factory has just returned nothing was said
    rw [hconn] at hc
    cases hc
    rw [Option.toList_none, List.append_nil]
    have hnew : Event.opened s.connections.length ∉ log := fun hc => (h.opened _ hc).ne rfl
    exact ⟨fun hc => absurd hc hnew, fun hc => absurd (h.finished _ hc) hnew⟩

/-- **A step is explained by what it says.** -/
theorem Explained.step (h : s.Explained log)
    (hstep : Shift s (· ∈ s.setups) e t (· ∈ t.setups)) : t.Explained (log ++ e.toList) where
  setups c hc := by
    rcases hstep.begun c hc with hc | ⟨-, hc⟩
    · exact (h.setups c hc).trans_le hstep.connections
    · exact hc
  homes c hc := by
    rcases hstep.homes with hhomes | ⟨d, rfl, hhomes⟩
    · exact List.mem_append_left _ (h.homes c (hhomes ▸ hc))
    · rw [hhomes] at hc
      rcases List.mem_append.mp hc with hc | hc
      · exact List.mem_append_left _ (h.homes c hc)
      · simp [List.mem_singleton.mp hc]
  opened c hc := by
    rcases List.mem_append.mp hc with hc | hc
    · exact (h.opened c hc).trans_le hstep.connections
    · obtain rfl := Option.mem_toList.mp hc
      exact (h.setups c hstep.said.1).trans_le hstep.connections
  finished c hc := by
    rcases List.mem_append.mp hc with hc | hc
    · exact List.mem_append_left _ (h.finished c hc)
    · obtain rfl := Option.mem_toList.mp hc
      exact List.mem_append_left _ (h.homes c hstep.said.2.1)
  channel := by
    have hsaid := hstep.said
    rw [sinceReset_append]
    rcases e with _ | ⟨d | d | d | conn⟩ <;>
      simp_all [Said, Event.isReset, Event.isOpened, h.channel]
  exchange c hc := by
    have hsaid := hstep.said
    rw [sinceReset_append] at hc
    rcases e with _ | ⟨d | d | d | conn⟩
    · exact hsaid.2.1 (h.exchange c (by simpa using hc))
    · exact hsaid.2.2.1 ▸ h.exchange c (by simpa [Event.isReset] using hc)
    · exact hsaid.2.2.2.1
    · exact hsaid.2.2.1 ▸ h.exchange c (by simpa [Event.isReset] using hc)
    · simp [Event.isReset] at hc
  held _ hc := h.held_step hstep hc
  recent _ hc hreset := h.recent_step hstep hc hreset

/-- **Every run is explained by its log.** -/
theorem explained_of_reach
    (hs : ((machine self).logged (tells self)).Reach Machine.anyStep (s, log)) :
    s.Explained log := by
  refine Machine.Path.invariant (P := fun p => p.1.Explained p.2) hs explained_initial ?_
  rintro p a q - h hq
  obtain ⟨ht, hlog⟩ := Machine.logged_step hq
  rw [hlog]
  exact h.step (step_shift ht)

/-- **An open connection that is not half set up has its channel and its exchange.** -/
theorem Explained.ready (h : s.Explained log) (hopen : s.connected = true)
    (hhalf : s.halfSetUp log = false) : s.channel.isSome = true ∧ s.exchange.isSome = true := by
  obtain ⟨c, hc, hopen⟩ := Connections.usable_iff.mp hopen
  simp only [halfSetUp, hc, Option.any_some, hopen, Bool.true_and, Bool.or_eq_false_iff,
    List.contains_eq_mem, decide_eq_false_iff_not] at hhalf
  obtain ⟨⟨hsetups, hfailed⟩, hreset⟩ := hhalf
  obtain ⟨hopened, hfinished⟩ := h.recent c hc hreset
  have hfin : .finished c ∈ log := by
    rcases h.held c hc with hheld | hheld | hheld
    · exact absurd hheld hsetups
    · exact hheld
    · exact absurd hheld hfailed
  refine ⟨?_, h.exchange c (hfinished hfin)⟩
  rw [h.channel, List.any_eq_true]
  exact ⟨_, hopened (h.finished c hfin), rfl⟩

/-! ## The assertion -/

/-- What `await self.start()` comes to in a step of `_do_publish`, if it is
reached. -/
def startOutcome (self : Config) (s : AsyncSender) (raises : Bool) (draw : ℚ) :
    SendPc → Option (AsyncSender × Starting)
  | .begin | .sleep _ _ =>
    if s.channel.isSome && s.exchange.isSome && s.connected then none else some s.startBegin
  | .starting _ pc => s.startStep self raises draw pc
  | .gather _ _ | .confirm _ _ | .returned | .raised => none

/-- `_do_publish` gets to `assert self._exchange is not None` in this step, in the
state `u`. -/
def Asserts (self : Config) (s : AsyncSender) (raises : Bool) (draw : ℚ) (pc : SendPc)
    (u : AsyncSender) : Prop :=
  s.startOutcome self raises draw pc = some (u, .returned) ∨
    (pc = .begin ∨ ∃ n until_, pc = .sleep n until_) ∧
      s.startOutcome self raises draw pc = none ∧ u = s

/-- An attempt that gets past `start` at once publishes in the state it began in. -/
theorem doPublish_eq_publish (raises : Bool) {call : SendCall}
    (h : s.startOutcome self raises draw .begin = some (u, .returned) ∨
      s.startOutcome self raises draw .begin = none ∧ u = s) :
    s.doPublish self i call attempt draw = u.publish self i call attempt draw := by
  unfold doPublish
  split
  · next htest =>
    rcases h with h | ⟨-, rfl⟩
    · simp only [startOutcome, if_pos htest] at h
      cases h
    · rfl
  · next htest =>
    simp only [startOutcome, if_neg htest] at h
    rcases h with h | ⟨h, -⟩
    · rw [Option.some.inj h]
      rfl
    · cases h

/-- A step in which the assertion is reached goes on from there. -/
theorem Asserts.publish {call : SendCall} (hcall : s.sends[i]? = some call)
    (h : s.send self i raises draw = some t) (ha : s.Asserts self raises draw call.pc u) :
    t = u.publish self i call call.pc.attempt draw := by
  simp only [send, hcall, Option.bind_some] at h
  split at h
  · cases h
  · cases hpc : call.pc with
    | begin =>
      simp only [hpc] at h ha
      cases h
      exact doPublish_eq_publish raises (ha.imp_right And.right)
    | sleep n until_ =>
      simp only [hpc] at h ha
      split at h <;> cases h
      exact doPublish_eq_publish raises (ha.imp_right And.right)
    | starting n pc =>
      simp only [hpc] at h ha
      rcases ha with ha | ⟨hp | ⟨_, _, hp⟩, -⟩
      · simp only [startOutcome] at ha
        rw [ha] at h
        exact (Option.some.inj h).symm
      · cases hp
      · cases hp
    | _ =>
      rw [hpc] at ha
      rcases ha with ha | ⟨hp | ⟨_, _, hp⟩, -⟩
      · cases ha
      · cases hp
      · cases hp

/-- A call of `start` that returns has found a connection, or has declared the
exchange. -/
theorem startOutcome_returned {pc : SendPc}
    (h : s.startOutcome self raises draw pc = some (u, .returned)) :
    (pc = .begin ∨ ∃ n until_, pc = .sleep n until_) ∧ u = s ∧ s.connected = true ∧
        (s.channel.isSome && s.exchange.isSome) = false ∨
      (∃ n m k, pc = .starting n (.declare m k)) ∧ u.channel = s.channel ∧
        u.exchange.isSome = true := by
  have hbegin : s.startOutcome self raises draw .begin = some (u, .returned) →
      u = s ∧ s.connected = true ∧ (s.channel.isSome && s.exchange.isSome) = false := by
    intro h
    simp only [startOutcome, startBegin, callFactory] at h
    split at h
    · cases h
    · next htest =>
      split at h
      · next hconn =>
        rw [hconn, Bool.and_true, Bool.not_eq_true] at htest
        cases h
        exact ⟨rfl, hconn, htest⟩
      · cases h
  cases pc with
  | begin => exact .inl ⟨.inl rfl, hbegin h⟩
  | sleep n until_ => exact .inl ⟨.inr ⟨n, until_, rfl⟩, hbegin h⟩
  | starting n pc =>
    have hfailed : ∀ m, (s.startFailed self m draw).2 ≠ .returned := by
      intro m
      unfold startFailed
      split <;> simp
    have h' : s.startStep self raises draw pc = some (u, .returned) := h
    cases pc with
    | factory m | channel m c =>
      simp only [startStep, Option.some.injEq] at h'
      split at h'
      · exact absurd (congrArg Prod.snd h') (hfailed m)
      · cases h'
    | declare m k =>
      simp only [startStep, Option.some.injEq] at h'
      split at h'
      · exact absurd (congrArg Prod.snd h') (hfailed m)
      · cases h'
        exact .inr ⟨⟨n, m, k, rfl⟩, by simp, by simp⟩
    | sleep m until_ =>
      simp only [startStep] at h'
      split at h' <;> cases h'
  | gather | confirm | returned | raised => cases h

/-- **`start` returns with channel and exchange set exactly in orderly steps**, of
every run, and in these the assertion that follows holds. -/
theorem start_ready_iff {call : SendCall}
    (hs : ((machine self).logged (tells self)).Reach Machine.anyStep (s, log))
    (hcall : s.sends[i]? = some call) (h : s.step self (.send i raises draw) = some t) :
    (∀ u, s.startOutcome self raises draw call.pc = some (u, .returned) →
      (u.channel.isSome = true ∧ u.exchange.isSome = true ↔
        s.orderly log call.pc = true)) ∧
    ∀ u, s.Asserts self raises draw call.pc u →
      t = u.publish self i call call.pc.attempt draw ∧
      (s.orderly log call.pc = true → u.exchange.isSome = true) := by
  have hexplained := explained_of_reach hs
  have hready : ∀ u, s.startOutcome self raises draw call.pc = some (u, .returned) →
      (u.channel.isSome = true ∧ u.exchange.isSome = true ↔
        s.orderly log call.pc = true) := by
    intro u hu
    rcases startOutcome_returned hu with ⟨hpc, rfl, hconn, htest⟩ | ⟨⟨n, m, k, hpc⟩, hchannel, hx⟩
    · -- `start` has found a connection that is open
      have hhalf : u.halfSetUp log = true := by
        by_contra hhalf
        obtain ⟨hchannel, hx⟩ := hexplained.ready hconn (Bool.not_eq_true _ ▸ hhalf)
        simp [hchannel, hx] at htest
      refine iff_of_false (fun hset => ?_) ?_
      · simp [hset] at htest
      · rcases hpc with hpc | ⟨n, until_, hpc⟩ <;> simp [hpc, orderly, hhalf]
    · -- it has declared the exchange
      rw [hpc, hchannel, hexplained.channel]
      exact and_iff_left hx
  refine ⟨hready, fun u ha => ⟨ha.publish hcall h, fun horderly => ?_⟩⟩
  rcases ha with ha | ⟨hpc, hnone, rfl⟩
  · exact ((hready u ha).mpr horderly).2
  · -- the call of `start` was skipped because the exchange is set
    have htest : (u.channel.isSome && u.exchange.isSome && u.connected) = true := by
      by_contra htest
      rcases hpc with hpc | ⟨n, until_, hpc⟩ <;> simp [hpc, startOutcome, htest] at hnone
    simp only [Bool.and_eq_true] at htest
    exact htest.1.2

end

/-- One `send`; `channel()` raises in the first attempt of `start`, and returns in the
second. -/
def retryRun : List Action :=
  [.callSend [1] none, .send 0 false 0, .send 0 false 0, .send 0 true 0, .tick 1,
    .send 0 false 0, .send 0 false 0, .send 0 false 0]

def setUpAgain : AsyncSender × List Event :=
  (((machine plain).logged (tells plain)).runIn (fun _ _ => true) (initial, []) retryRun).getD
    (initial, [])

theorem setUpAgain_reach :
    ((machine plain).logged (tells plain)).Reach Machine.anyStep
      (setUpAgain.1, setUpAgain.2) :=
  (Machine.path_of_isSome (c := fun _ _ => true) (by decide +kernel) (initial, [])).mono
    fun _ _ _ => trivial

theorem setUpAgain_sends :
    setUpAgain.1.sends[0]? = some ⟨[1], none, .starting 1 (.declare 2 0)⟩ := by decide +kernel

/-- `declare_exchange` returns. -/
def declared : AsyncSender := (setUpAgain.1.step plain (.send 0 false 0)).getD initial

theorem declared_step : setUpAgain.1.step plain (.send 0 false 0) = some declared := by
  have h : (setUpAgain.1.step plain (.send 0 false 0)).isSome = true := by decide +kernel
  obtain ⟨t, ht⟩ := Option.isSome_iff_exists.mp h
  rw [declared, ht, Option.getD_some]

theorem start_ready_iff_retried :
    setUpAgain.2 = [.failed 0, .opened 1] ∧
    setUpAgain.1.orderly setUpAgain.2 (.starting 1 (.declare 2 0)) = true ∧
    (∃ u, setUpAgain.1.startOutcome plain false 0 (.starting 1 (.declare 2 0)) =
      some (u, .returned)) ∧
    (∀ u, setUpAgain.1.startOutcome plain false 0 (.starting 1 (.declare 2 0)) =
        some (u, .returned) →
      (u.channel.isSome = true ∧ u.exchange.isSome = true ↔
        setUpAgain.1.orderly setUpAgain.2 (.starting 1 (.declare 2 0)) = true)) ∧
    ∀ u, setUpAgain.1.Asserts plain false 0 (.starting 1 (.declare 2 0)) u →
      declared = u.publish plain 0 ⟨[1], none, .starting 1 (.declare 2 0)⟩ 1 0 ∧
      (setUpAgain.1.orderly setUpAgain.2 (.starting 1 (.declare 2 0)) = true →
        u.exchange.isSome = true) :=
  ⟨by decide +kernel, by decide +kernel, ⟨_, rfl⟩,
    start_ready_iff setUpAgain_reach setUpAgain_sends declared_step⟩

/-- Two calls of `send` on a new sender; the factory has returned for the first,
and the second begins. -/
def overtaking : List Action :=
  [.callSend [1] none, .callSend [2] none, .send 0 false 0, .send 0 false 0]

def overtaken : AsyncSender :=
  ((machine plain).runIn (fun _ _ => true) initial overtaking).getD initial

theorem overtaken_reach : (machine plain).Reach Machine.anyStep overtaken :=
  (Machine.path_of_isSome (c := fun _ _ => true) (by decide +kernel) initial).mono
    fun _ _ _ => trivial

theorem overtaken_sends : overtaken.sends[1]? = some ⟨[2], none, .begin⟩ := by decide +kernel

/-- A `start` inside `send` returns before channel and exchange are set, and the
assertion fails. -/
theorem start_returns_unready : ∃ s i call t, (machine plain).Reach Machine.anyStep s ∧
    s.sends[i]? = some call ∧ s.step plain (.send i false 0) = some t ∧
    s.startOutcome plain false 0 call.pc = some (s, .returned) ∧
    s.Asserts plain false 0 call.pc s ∧ s.channel = none ∧ s.exchange = none := by
  have hout : overtaken.startOutcome plain false 0 .begin = some (overtaken, .returned) := by
    have hconn : overtaken.connected = true := by decide +kernel
    have hchan : overtaken.channel = none := by decide +kernel
    simp [startOutcome, startBegin, hconn, hchan]
  have hstep : (overtaken.step plain (.send 1 false 0)).isSome = true := by decide +kernel
  obtain ⟨t, ht⟩ := Option.isSome_iff_exists.mp hstep
  exact ⟨overtaken, 1, _, t, overtaken_reach, overtaken_sends, ht, hout, .inl hout,
    by decide +kernel, by decide +kernel⟩

end AsyncSender

end MqAdapters
