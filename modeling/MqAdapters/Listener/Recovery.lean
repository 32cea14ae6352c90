import MqAdapters.Listener.Ending
import MqAdapters.Listener.Pump

/-!
# The listener recovers

When nothing is lost any more and only calls on what is closed raise, `run` finds its way
back to an open connection and a channel with its consumer, wherever the failures left it.

* `Steady`: the loop goes round with its connection and its channel open.
* `toSteady`: how many steps of `run` lead there at most.
* `steady_stays`: from then on it stays there.
-/

namespace MqAdapters

open Python Theory

namespace ListenerLoop

variable {self : Config} {s t : ListenerLoop} {raises runs : Bool} {draw : ℚ}

/-- The connection and the channel in the fields are open. -/
def online (s : ListenerLoop) : Bool := s.connected && s.consuming

/-- In the loop, outside of the set-up and of the handlers. -/
def Pc.cycle : Pc → Bool
  | .top | .checkConnection | .checkChannel | .pump => true
  | _ => false

/-- The loop serves its consumer, and nobody has asked it to stop. -/
structure Steady (s : ListenerLoop) : Prop where
  pc : s.pc.cycle = true
  online : s.online = true
  stopMe : s.stopMe = false
  queued : s.queued = []

/-- What a call of `run` uses is closed; `close` may raise on anything. -/
def mayRaise (s : ListenerLoop) : Bool :=
  match s.pc with
  | .connecting _ => false
  | .openChannel => !s.connected
  | .setup | .pump => !s.online
  | _ => true

/-- A step of `run` or of the clock, while nothing is lost and no call raises on something
that is open. -/
def calm (s : ListenerLoop) : Action → Prop
  | .io raises _ _ => raises = true → s.mayRaise = true
  | .tick _ => True
  | _ => False

/-- Steady, or left by an exception of a delay. -/
def Recovered (s : ListenerLoop) : Prop := s.Steady ∨ ∃ e, s.pc = .escaped e

/-! ## Nobody has asked for a stop -/

/-- What holds until `stop_me` is set. -/
structure Unasked (s : ListenerLoop) : Prop where
  stopping : s.stopping = .idle ∨ s.stopping = .set
  queued : s.queued = []
  pc : s.pc ≠ .exited

theorem runQueued_nil (hq : s.queued = []) (raises : Bool) : s.runQueued raises = s := by
  unfold runQueued
  split
  · rfl
  · simp [hq]

theorem pump_nil (hq : s.queued = []) : s.pump runs raises =
    if raises then { s with pc := .handler .inner }
    else { s with loopFailures := 0, pc := .top } := by
  have hsame : (if runs then s.runQueued raises else s) = s := by
    rw [runQueued_nil hq, ite_self]
  simp only [pump, hsame]

theorem unasked_io (hs : Unasked s) (hstop : s.stopMe = false)
    (h : s.io self raises runs draw = some t) : t.stopMe = false ∧ Unasked t := by
  obtain ⟨hstopping, hq, hpc⟩ := hs
  have hc := io_cases h
  cases hat : s.pc <;> simp only [hat] at hc
  case pump =>
    rw [hc, pump_nil hq]
    cases raises <;> exact ⟨hstop, hstopping, hq, nofun⟩
  case closeChannel =>
    obtain ⟨channels, hdrop⟩ := exists_dropChannel s
    rw [hc, hdrop]
    exact ⟨hstop, hstopping, hq, nofun⟩
  case closeConnection =>
    obtain ⟨connections, stats, hdrop⟩ := exists_dropConnection s raises
    rw [hc, hdrop]
    exact ⟨hstop, hstopping, hq, nofun⟩
  case begin | clearChannel | clearConnection =>
    rw [hc]
    exact ⟨hstop, hstopping, hq, nofun⟩
  case top | retry | handler =>
    obtain ⟨hset, -⟩ | ⟨-, rfl⟩ := hc
    · rw [hstop] at hset
      cases hset
    · exact ⟨hstop, hstopping, hq, nofun⟩
  case retrySleep | sleep =>
    obtain ⟨-, rfl⟩ := hc
    exact ⟨hstop, hstopping, hq, nofun⟩
  case retryFailed =>
    obtain ⟨-, rfl⟩ | ⟨-, ⟨e, -, rfl⟩ | ⟨delay, -, rfl⟩⟩ := hc
    all_goals exact ⟨hstop, hstopping, hq, nofun⟩
  case openChannel =>
    obtain ⟨-, rfl⟩ | ⟨c, -, -, rfl⟩ := hc
    all_goals exact ⟨hstop, hstopping, hq, nofun⟩
  case setup =>
    obtain ⟨-, rfl⟩ | ⟨-, rfl⟩ := hc
    all_goals exact ⟨hstop, hstopping, hq, nofun⟩
  case backoff level =>
    obtain ⟨e, -, rfl⟩ | ⟨delay, -, rfl⟩ := hc
    · refine ⟨hstop, hstopping, hq, ?_⟩
      cases level <;> exact nofun
    · exact ⟨hstop, hstopping, hq, nofun⟩
  all_goals
    obtain ⟨-, rfl⟩ | ⟨-, rfl⟩ := hc
    all_goals exact ⟨hstop, hstopping, hq, nofun⟩

theorem unasked_step {a : Action} (hs : s.stopMe = false → Unasked s)
    (h : s.step self a = some t) (hstop : t.stopMe = false) : Unasked t := by
  have hleft : s.stopMe = false := by
    by_contra hset
    have hset : s.stopMe = true := by simpa using hset
    have hkept : t.stopMe = true := by
      cases a with
      | io raises runs draw => exact (io_toEnd hset h).1
      | callStop | stop | tick | lose | loseChannel =>
        exact (leaves_of_ofRun self h rfl).stopMe hset
    rw [hkept] at hstop
    cases hstop
  obtain ⟨hstopping, hq, hpc⟩ := hs hleft
  have hc := step_cases h
  cases a with
  | io raises runs draw => exact (unasked_io ⟨hstopping, hq, hpc⟩ hleft h).2
  | callStop =>
    obtain ⟨-, rfl⟩ := hc
    exact ⟨.inr rfl, hq, hpc⟩
  | stop =>
    rcases hstopping with hidle | hset
    · simp [stop, hidle] at hc
    · -- the step that sets `stop_me`
      simp only [stop, hset, Option.some.injEq] at hc
      rw [← hc] at hstop
      cases hstop
  | tick dt =>
    obtain ⟨-, rfl⟩ := hc
    exact ⟨hstopping, hq, hpc⟩
  | lose c =>
    obtain rfl : t = _ := hc
    exact ⟨hstopping, hq, hpc⟩
  | loseChannel k =>
    obtain rfl : t = _ := hc
    exact ⟨hstopping, hq, hpc⟩

theorem unasked_of_reach {c : ListenerLoop → Action → Prop} (h : (machine self).Reach c s)
    (hstop : s.stopMe = false) : Unasked s := by
  have hkept : s.stopMe = false → Unasked s := by
    refine Machine.Path.invariant (P := fun s => s.stopMe = false → Unasked s) h ?_ ?_
    · exact fun _ => ⟨.inl rfl, rfl, nofun⟩
    · exact fun _ _ _ _ hs ht hstop => unasked_step hs ht hstop
  exact hkept hstop

/-! ## Steps towards a steady loop -/

/-- An exception of the inner handler has the outer one run as well. -/
def Level.toOuter : Level → Nat
  | .inner => 6
  | .outer => 0

/-- How many steps of `run` are left at most before it is steady. -/
def toSteady (s : ListenerLoop) : Nat :=
  match s.pc with
  | .setup => if s.online then 1 else 22
  | .openChannel => if s.connected then 2 else 23
  | .checkChannel => if s.connected then 3 else 24
  | .connecting _ => 4
  | .retry _ => 5
  | .checkConnection => if s.connected then 4 else 6
  | .retrySleep _ _ => 6
  | .top => if s.connected then 5 else 7
  | .begin | .sleep _ => 8
  | .backoff level => 9 + level.toOuter
  | .clearConnection level => 10 + level.toOuter
  | .clearChannel level => 11 + level.toOuter
  | .closeConnection level => 12 + level.toOuter
  | .closeChannel level => 13 + level.toOuter
  | .handler level => 14 + level.toOuter
  | .retryFailed _ => 15
  | .pump => 21
  | .exited | .escaped _ => 0

theorem Level.toOuter_le (level : Level) : level.toOuter ≤ 6 := by
  cases level <;> decide

theorem toSteady_le (s : ListenerLoop) : s.toSteady ≤ 24 := by
  cases hpc : s.pc
  case backoff level | clearConnection level | clearChannel level | closeConnection level |
      closeChannel level | handler level =>
    have hlevel := level.toOuter_le
    simp only [toSteady, hpc]
    omega
  case setup | openChannel | checkChannel | checkConnection | top =>
    simp only [toSteady, hpc]
    split <;> omega
  all_goals
    simp only [toSteady, hpc]
    omega

/-- The set-up of a channel keeps it open. -/
theorem setup_online : (s.setup false).online = s.online := by
  cases hchan : s.channel with
  | none => simp [online, connected, consuming, setup, hchan]
  | some k =>
    simp only [online, connected, consuming, channelOpen, setup, hchan, Option.any_some,
      Bool.false_eq_true, if_false, List.getElem?_modify_eq]
    cases s.channels[k]? <;> rfl

/-- **A step of `run` comes closer to a steady loop**, wherever the failures left it. -/
theorem io_toSteady (hs : Unasked s) (hstop : s.stopMe = false)
    (hcalm : raises = true → s.mayRaise = true) (h : s.io self raises runs draw = some t) :
    Recovered t ∨ t.toSteady < s.toSteady := by
  obtain ⟨hstop', hs'⟩ := unasked_io hs hstop h
  have hc := io_cases h
  cases hpc : s.pc <;> simp only [hpc] at hc
  case begin =>
    rw [hc]
    right
    simp only [toSteady, hpc]
    split <;> omega
  case top =>
    obtain ⟨hset, -⟩ | ⟨-, rfl⟩ := hc
    · rw [hstop] at hset
      cases hset
    · right
      show (if s.connected then 4 else 6) < s.toSteady
      simp only [toSteady, hpc]
      split <;> omega
  case checkConnection =>
    right
    obtain ⟨hconn, rfl⟩ | ⟨hconn, rfl⟩ := hc
    · have hconn' : ({ s with pc := .checkChannel } : ListenerLoop).connected = true := hconn
      simp only [toSteady, hpc, hconn, hconn', if_true]
      omega
    · simp only [toSteady, hpc, hconn]
      decide
  case retry attempt =>
    right
    obtain ⟨hset, -⟩ | ⟨-, rfl⟩ := hc
    · rw [hstop] at hset
      cases hset
    · simp only [toSteady, hpc]
      omega
  case connecting attempt =>
    right
    obtain ⟨hraises, -⟩ | ⟨-, rfl⟩ := hc
    · have hmay := hcalm hraises
      simp [mayRaise, hpc] at hmay
    · have hopen : s.connections.connect.usable (some s.connections.fresh) = true :=
        Connections.isOpen_connect.mpr (.inr rfl)
      simp only [toSteady, hpc, connected, hopen, if_true]
      omega
  case retryFailed attempt =>
    right
    obtain ⟨-, rfl⟩ | ⟨-, ⟨e, -, rfl⟩ | ⟨delay, -, rfl⟩⟩ := hc
    all_goals
      simp only [toSteady, hpc, Level.toOuter]
      omega
  case retrySleep attempt until_ =>
    right
    obtain ⟨-, rfl⟩ := hc
    simp only [toSteady, hpc]
    omega
  case checkChannel =>
    obtain ⟨hchan, rfl⟩ | ⟨-, rfl⟩ := hc
    · by_cases hconn : s.connected = true
      · -- the channel is open as well: nothing is left to do
        exact .inl (.inl ⟨rfl, Bool.and_eq_true_iff.mpr ⟨hconn, hchan⟩, hstop', hs'.queued⟩)
      · right
        simp only [toSteady, hpc, if_neg hconn]
        omega
    · right
      have hconn : ({ s with pc := .openChannel } : ListenerLoop).connected = s.connected := rfl
      simp only [toSteady, hpc, hconn]
      split <;> omega
  case openChannel =>
    right
    obtain ⟨hwhy, rfl⟩ | ⟨c, -, hconn, rfl⟩ := hc
    · have hclosed : s.connected = false := by
        rcases hwhy with hraises | hnone
        · simpa [mayRaise, hpc] using hcalm hraises
        · simp [connected, hnone, Connections.usable]
      simp only [toSteady, hpc, hclosed, Level.toOuter]
      decide
    · have honline : ({ s with
          channel := some s.channels.length
          channels := s.channels ++ [⟨c, true, 0⟩]
          pc := .setup } : ListenerLoop).online = s.connected := by
        simp [online, connected, consuming, channelOpen, hconn, Connections.usable]
      simp only [toSteady, hpc, honline]
      split <;> omega
  case setup =>
    obtain ⟨hraises, rfl⟩ | ⟨-, rfl⟩ := hc
    · right
      have hclosed : s.online = false := by simpa [mayRaise, hpc] using hcalm hraises
      simp only [toSteady, hpc, hclosed, Level.toOuter]
      decide
    · by_cases honline : s.online = true
      · exact .inl (.inl ⟨rfl, setup_online.trans honline, hstop', hs'.queued⟩)
      · right
        have hpump : (s.setup false).toSteady = 21 := rfl
        rw [hpump]
        simp only [toSteady, hpc, if_neg honline]
        decide
  case pump =>
    rw [hc, pump_nil hs.queued]
    right
    cases raises
    · simp only [toSteady, hpc, Bool.false_eq_true, if_false]
      split <;> omega
    · simp only [toSteady, hpc, if_true, Level.toOuter]
      omega
  case handler level =>
    right
    obtain ⟨hset, -⟩ | ⟨-, rfl⟩ := hc
    · rw [hstop] at hset
      cases hset
    · simp only [toSteady, hpc]
      omega
  case closeChannel level | closeConnection level | clearChannel level | clearConnection level =>
    rw [hc]
    right
    simp only [toSteady, hpc]
    omega
  case backoff level =>
    obtain ⟨e, -, rfl⟩ | ⟨delay, -, rfl⟩ := hc
    · cases level with
      | inner =>
        right
        simp only [toSteady, hpc, Level.toOuter]
        omega
      | outer => exact .inl (.inr ⟨e, rfl⟩)
    · right
      simp only [toSteady, hpc]
      omega
  case sleep until_ =>
    right
    obtain ⟨-, rfl⟩ := hc
    simp only [toSteady, hpc]
    split <;> omega

/-! ## The steady loop -/

/-- **A steady loop stays so** as long as nothing is lost. -/
theorem Steady.step {a : Action} (hs : Steady s) (ha : calm s a)
    (h : s.step self a = some t) : Steady t := by
  obtain ⟨hpc, honline, hstop, hq⟩ := hs
  obtain ⟨hconn, hchan⟩ := Bool.and_eq_true_iff.mp honline
  have hcases := step_cases h
  cases a with
  | io raises runs draw =>
    have hc := io_cases hcases
    cases hat : s.pc <;> simp only [hat] at hc hpc
    case top =>
      obtain ⟨hset, -⟩ | ⟨-, rfl⟩ := hc
      · rw [hstop] at hset
        cases hset
      · exact ⟨rfl, honline, hstop, hq⟩
    case checkConnection =>
      obtain ⟨-, rfl⟩ | ⟨hnot, -⟩ := hc
      · exact ⟨rfl, honline, hstop, hq⟩
      · rw [hconn] at hnot
        cases hnot
    case checkChannel =>
      obtain ⟨-, rfl⟩ | ⟨hnot, -⟩ := hc
      · exact ⟨rfl, honline, hstop, hq⟩
      · rw [hchan] at hnot
        cases hnot
    case pump =>
      cases raises with
      | true =>
        have hmay := ha rfl
        simp [mayRaise, hat, honline] at hmay
      | false =>
        rw [hc, pump_nil hq]
        exact ⟨rfl, honline, hstop, hq⟩
    all_goals cases hpc
  | tick dt =>
    obtain ⟨-, rfl⟩ := hcases
    exact ⟨hpc, honline, hstop, hq⟩
  | callStop | stop | lose | loseChannel => cases ha

theorem Recovered.step {a : Action} (hs : Recovered s) (ha : calm s a)
    (h : s.step self a = some t) : Recovered t := by
  rcases hs with hsteady | ⟨e, hpc⟩
  · exact .inl (hsteady.step ha h)
  · have hcases := step_cases h
    cases a with
    | io raises runs draw =>
      have hc := io_cases hcases
      simp only [hpc] at hc
    | tick dt =>
      obtain ⟨-, rfl⟩ := hcases
      exact .inr ⟨e, hpc⟩
    | callStop | stop | lose | loseChannel => cases ha

/-- The channel of a steady loop has its consumer. -/
theorem Steady.serves (hs : Steady s) (hcoherent : Coherent s) : s.Serves 1 := by
  obtain ⟨-, hchan⟩ := Bool.and_eq_true_iff.mp hs.online
  have hwhole : s.pc.whole = true := by
    have hcycle := hs.pc
    cases hpc : s.pc <;> simp only [hpc, Pc.cycle] at hcycle
    all_goals first | rfl | cases hcycle
  exact hcoherent.serves (hcoherent.whole hwhole fun _ => hs.stopMe) hchan

/-- **Until a stop, the steps of `run` lead to a steady loop.** -/
theorem leads_to_steady (self : Config) : (machine self).Leads calm ofRun
    (fun s => s.stopMe = false ∧ Unasked s) Recovered toSteady where
  step s a t ha hs ht := by
    obtain ⟨hstop, hunasked⟩ := hs
    cases a with
    | io raises runs draw =>
      refine (io_toSteady hunasked hstop ha ht).imp_right fun hlt => ?_
      exact ⟨unasked_io hunasked hstop ht, hlt⟩
    | tick dt =>
      have hstep : s.step self (.tick dt) = some t := ht
      obtain ⟨-, rfl⟩ := step_cases hstep
      exact .inr ⟨⟨hstop, hunasked.stopping, hunasked.queued, hunasked.pc⟩, Nat.le_refl _⟩
    | callStop | stop | lose | loseChannel => cases ha
  stays _ _ _ ha hs ht := hs.step ha ht

/-- **The listener recovers.**  Let `run` be wherever the failures so far have left it, and
let from now on nothing be lost, nobody call `stop_listening`, and no call raise on something
that is open.  Then 25 steps of `run` later, and from then on, the loop goes round with an
open connection and an open channel that has its one consumer, unless the delay of a retry
has raised out of `run`.  And there is such a run: no step has to wait for another thread. -/
theorem recovers {c : ListenerLoop → Action → Prop} (h : (machine self).Reach c s)
    (hstop : s.stopMe = false) :
    (∀ t k, ((machine self).counting ofRun).Path (fun q a => calm q.1 a) (s, 0) (t, k) →
      24 < k → t.Steady ∧ t.Serves 1 ∨ ∃ e, t.pc = .escaped e) ∧
    ∃ t, (machine self).Path calm s t ∧ (t.Steady ∧ t.Serves 1 ∨ ∃ e, t.pc = .escaped e) := by
  have hs : s.stopMe = false ∧ Unasked s := ⟨hstop, unasked_of_reach h hstop⟩
  have hserves : ∀ t, (machine self).Path calm s t → Recovered t →
      t.Steady ∧ t.Serves 1 ∨ ∃ e, t.pc = .escaped e := by
    intro t ht hrecovered
    have hcoherent : Coherent t := Machine.Path.invariant (P := Coherent) ht (coherent_of_reach h)
      fun _ _ _ _ hs ht => coherent_step hs ht
    exact hrecovered.imp_left fun hsteady => ⟨hsteady, hsteady.serves hcoherent⟩
  constructor
  · intro t k hk hlong
    have hle := s.toSteady_le
    exact hserves t (Machine.Path.of_counting hk)
      ((leads_to_steady self).goal_of_lt hs hk (by omega))
  · obtain ⟨t, ht, hrecovered⟩ := (leads_to_steady self).exists_goal (fun s hs hgoal => by
      have hended : s.pc.ended = false := by
        by_contra hended
        cases hpc : s.pc <;> simp only [hpc, Pc.ended, not_true_eq_false] at hended
        case exited => exact hs.2.pc hpc
        case escaped e => exact hgoal (.inr ⟨e, hpc⟩)
      obtain ⟨t, ht⟩ := exists_io self (c := calm) (fun _ => nofun) (fun _ _ => trivial) hended
      exact ⟨t, 0, ht⟩) hs
    exact ⟨t, ht, hserves t ht hrecovered⟩

/-- The connection was lost in the first pump, which raised. -/
def struck : ListenerLoop :=
  ((machine defaultConfig).runIn (fun _ _ => true) initial
    (firstPump ++ [.lose 0, .io true false 0])).getD initial

theorem recovers_struck :
    (∀ t k, ((machine defaultConfig).counting ofRun).Path (fun q a => calm q.1 a) (struck, 0)
      (t, k) → 24 < k → t.Steady ∧ t.Serves 1 ∨ ∃ e, t.pc = .escaped e) ∧
    ∃ t, (machine defaultConfig).Path calm struck t ∧
      (t.Steady ∧ t.Serves 1 ∨ ∃ e, t.pc = .escaped e) := by
  have hreach : (machine defaultConfig).Reach (fun _ _ => true = true) struck :=
    Machine.path_of_runIn (c := fun _ _ => true) (show (machine defaultConfig).runIn
      (fun _ _ => true) initial (firstPump ++ [.lose 0, .io true false 0]) = some struck from rfl)
  exact recovers hreach rfl

end ListenerLoop

end MqAdapters
