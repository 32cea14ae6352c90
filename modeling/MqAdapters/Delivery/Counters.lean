import Mathlib.Algebra.BigOperators.Group.List.Basic
import MqAdapters.Delivery.Paths
import MqAdapters.Delivery.Wrappers

/-!
# What the counters of the listener count

In every mode, over any number of deliveries that are handled to their end:

* `received_eq`: `received` counts each delivery once, and once more for each that
  `submit` refused, since `_internal_wrapper` counts it again.
* `handlerExceptions_eq`: `handler_exceptions` counts what `_on_done` finds, so with
  `offload=False` it counts nothing.
* `counters_account_iff`: when the counters account for every delivery.
-/

namespace MqAdapters

open Python Theory Code

namespace Listener

/-- No stop is requested and the semaphore works; `submit` raises a `RuntimeError`
if it raises, and `add_callback_threadsafe` an `Exception`. -/
def Attended : Call → Prop
  | ⟨.stopMe, r⟩ => r = false
  | ⟨.acquire, r⟩ => r = .ok ()
  | ⟨.release, r⟩ => r = .ok ()
  | ⟨.submit, r⟩ => r ≠ .error .baseException
  | ⟨.addCallbackThreadsafe _, r⟩ => r ≠ .error .baseException
  | _ => True

/-- The operations of the channel succeed. -/
def ChannelWorks : Call → Prop
  | ⟨.basicPublish _ _ _ _ _, r⟩ => r = .ok ()
  | ⟨.basicAck _ _, r⟩ => r = .ok ()
  | ⟨.basicNack _ _ _, r⟩ => r = .ok ()
  | _ => True

def increments (counter : Counter) : Call → Bool
  | ⟨.inc c, _⟩ => c == counter
  | _ => false

/-- `submit` raised. -/
def refused : Call → Bool
  | ⟨.submit, r⟩ => !r.isOk
  | _ => false

/-- The user callback raised. -/
def raised : Call → Bool
  | ⟨.callback _ _, r⟩ => !r.isOk
  | _ => false

/-- The counter, once these deliveries were handled. -/
def counted (counter : Counter) (sys : List (Delivery × Handling)) : Nat :=
  (sys.map fun p => p.2.trace.countP (increments counter)).sum

/-- The counters account for every delivery. -/
structure Accounted (self : Listener) (sys : List (Delivery × Handling)) : Prop where
  received : counted .received sys = sys.length
  exceptions : counted .handlerExceptions sys = (sys.map fun p => p.2.trace.countP raised).sum
  settled : self.autoAck = false → (∀ p ∈ sys, ∀ e ∈ p.2.trace, ChannelWorks e) →
    counted .acked sys + counted .nacked sys = counted .received sys

/-! ## One delivery -/

/-- One for what satisfies `p`, less one for what satisfies `q`. -/
def balance (p q : Call → Bool) (e : Call) : ℤ :=
  (if p e then 1 else 0) - if q e then 1 else 0

theorem sum_balance (p q : Call → Bool) (h : List Call) :
    (h.map (balance p q)).sum = (h.countP p : ℤ) - h.countP q := by
  induction h with
  | nil => rfl
  | cons e h ih =>
    rw [List.map_cons, List.sum_cons, ih, List.countP_cons, List.countP_cons, balance]
    split <;> split <;> push_cast <;> omega

theorem balance_eq_zero {p q : Call → Bool} {e : Call} (hp : p e = false) (hq : q e = false) :
    balance p q e = 0 := by
  rw [balance, hp, hq]
  rfl

/-- A scheduled function counts acks and nacks only. -/
theorem settling_reads {e : Call} (he : settling e.op = true) :
    (increments .received e = false ∧ increments .handlerExceptions e = false) ∧
      refused e = false ∧ raised e = false := by
  obtain ⟨o, r⟩ := e
  cases o with
  | basicPublish | basicAck | basicNack => exact ⟨⟨rfl, rfl⟩, rfl, rfl⟩
  | inc c =>
    cases c with
    | acked | nacked => exact ⟨⟨rfl, rfl⟩, rfl, rfl⟩
    | received | handlerExceptions => cases he
  | _ => cases he

theorem silent_reads {e : Call} (he : silent e.op = true) :
    (∀ counter, increments counter e = false) ∧ refused e = false ∧ raised e = false := by
  obtain ⟨o, r⟩ := e
  cases o with
  | connectionIsOpen | addCallbackThreadsafe | release => exact ⟨fun _ => rfl, rfl, rfl⟩
  | _ => cases he

section

variable {self : Listener} {d : Delivery} {s : Handling} {allowed : Call → Prop}

/-- Only the wrapper counts what was received. -/
def receivedFund : Part → ℤ
  | .wrapper => 1
  | _ => 0

theorem code_received (l : Part) : (l.code self d).wp (Program.free Attended Part.started)
    (fun h _ => Program.net (balance (increments .received) refused) Part.started
      receivedFund h = receivedFund l) [] := by
  have hscheduled := scheduled_worthless d Attended receivedFund fun e he =>
    balance_eq_zero (p := increments .received) (q := refused) (settling_reads he).1.1
      (settling_reads he).2.1
  cases l with
  | wrapper =>
    rcases self with ⟨⟨destination, _ | _⟩, _ | _⟩
    all_goals
      simp [Part.code, onMessage, wrapper, ListenerSetup.Wrapper.of, offloadWrapper,
        internalWrapper, autoAckWrapper, Delivery.method, Attended, Part.started, receivedFund,
        balance, increments, refused, Except.isOk, Except.toBool]
  | work =>
    refine offloaded_worth receivedFund
      (fun e he => balance_eq_zero ((silent_reads he).1 _) (silent_reads he).2.1)
      hscheduled (fun _ _ => rfl) ?_ ?_
    all_goals simp [settled, balance, increments, refused, receivedFund]
  | scheduled schedule => exact Program.wp_mono (fun _ _ hr => hr.1) _ _ (hscheduled schedule)

/-- `received` counts a delivery once, and once more if `submit` refused it. -/
theorem received_eq (hs : (handling self d).Reach (answers Attended) s) (hc : s.Complete) :
    s.trace.countP (increments .received) = s.trace.countP refused + 1 := by
  have hworth := crew_worth receivedFund code_received hs hc
  rw [sum_balance, receivedFund] at hworth
  omega

/-- The rules with `offload=False`: nothing is started, and no exception counted. -/
def directRules : Program.Rules Op Op.Ans Part where
  allowed := Attended
  guard _ o := (∀ r, Part.started ⟨o, r⟩ = []) ∧ o ≠ .inc .handlerExceptions
  spawn := Part.started
  pre l _ := l = .wrapper

theorem exceptions_eq_zero (hoffload : self.offload = false)
    (hs : (handling self d).Reach (answers Attended) s) :
    s.trace.countP (increments .handlerExceptions) = 0 := by
  have hkept : Kept directRules (fun _ _ _ => True) .wrapper s := by
    refine crew_kept ?_ (show Part.wrapper = .wrapper from rfl) hs
    rintro _ h rfl
    cases hauto : self.autoAck
    all_goals
      simp [Part.code, onMessage, wrapper, ListenerSetup.Wrapper.of, internalWrapper,
        autoAckWrapper, Delivery.method, hoffload, hauto, directRules, Attended, Part.started]
  refine List.countP_eq_zero.mpr fun e he hinc => ?_
  obtain ⟨past, rest, htrace⟩ := List.append_of_mem he
  obtain ⟨h, -, -, hne⟩ := hkept.guarded past e rest htrace
  obtain ⟨o, r⟩ := e
  cases o with
  | inc c => exact hne (congrArg Op.inc (beq_iff_eq.mp hinc))
  | _ => cases hinc

theorem code_exceptions (hoffload : self.offload = true) (l : Part) :
    (l.code self d).wp (Program.free (fun e => Attended e ∧ refused e = false) Part.started)
      (fun h _ => Program.net (balance (increments .handlerExceptions) raised) Part.started
        (fun _ => 0) h = 0) [] := by
  have hscheduled := scheduled_worthless d (fun e => Attended e ∧ refused e = false) (fun _ => 0)
    fun e he => balance_eq_zero (p := increments .handlerExceptions) (q := raised)
      (settling_reads he).1.2 (settling_reads he).2.2
  cases l with
  | wrapper =>
    simp [Part.code, onMessage, wrapper, ListenerSetup.Wrapper.of, offloadWrapper, hoffload,
      Attended, Part.started, balance, increments, refused, raised, Except.isOk, Except.toBool]
  | work =>
    refine offloaded_worth (fun _ => 0)
      (fun e he => balance_eq_zero ((silent_reads he).1 _) (silent_reads he).2.2)
      hscheduled (fun _ _ => rfl) ?_ ?_
    all_goals simp [settled, balance, increments, raised, Except.isOk, Except.toBool]
  | scheduled schedule => exact Program.wp_mono (fun _ _ hr => hr.1) _ _ (hscheduled schedule)

/-- A callback that a worker runs and that raises is counted. -/
theorem exceptions_eq_raised (hoffload : self.offload = true)
    (hs : (handling self d).Reach (answers Attended) s) (hc : s.Complete)
    (hsubmit : ∀ e ∈ s.trace, refused e = false) :
    s.trace.countP (increments .handlerExceptions) = s.trace.countP raised := by
  have hs' : (handling self d).Reach (answers fun e => Attended e ∧ refused e = false) s :=
    crew_restrict hs fun e he => ⟨trace_allowed hs e he, hsubmit e he⟩
  have hworth := crew_worth (fun _ => 0) (code_exceptions hoffload) hs' hc
  rw [sum_balance] at hworth
  omega

/-! ## Acks and nacks -/

/-- The answers with which a delivery is settled: the channel works, `submit` takes
every callback, and no callback that the wrapper runs itself raises. -/
def Settles (self : Listener) (e : Call) : Prop :=
  (Attended e ∧ ChannelWorks e) ∧ refused e = false ∧ (self.offload = false → raised e = false)

/-- The call counts an ack or a nack. -/
def settles (e : Call) : Bool := increments .acked e || increments .nacked e

theorem countP_settles (h : List Call) :
    h.countP settles = h.countP (increments .acked) + h.countP (increments .nacked) := by
  induction h with
  | nil => rfl
  | cons e h ih =>
    obtain ⟨o, r⟩ := e
    rw [List.countP_cons, List.countP_cons, List.countP_cons, ih]
    cases o with
    | inc c => cases c <;> simp [settles, increments] <;> omega
    | _ => rfl

theorem code_settles (hauto : self.autoAck = false) (l : Part) :
    (l.code self d).wp (Program.free (Settles self) Part.started)
      (fun h _ => Program.net (balance settles fun _ => false) Part.started (fun _ => 1) h = 1)
      [] := by
  have hscheduled : ∀ schedule : Schedule, (schedule.run d.channel d.properties d.body).wp
      (Program.free (Settles self) Part.started)
      (fun h r => Program.net (balance settles fun _ => false) Part.started (fun _ => 1) h = 1 ∧
        r ≠ .error .exception) [] := by
    intro schedule
    cases schedule with
    | ack tag =>
      simp [Schedule.run, ackOffloaded, Settles, Attended, ChannelWorks, refused, raised,
        Part.started, balance, settles, increments]
    | fail tag cfg attempt =>
      rcases hq : cfg.poisonQueue attempt with _ | q
      all_goals
        simp [Schedule.run, handleFail, hq, Program.wp_ite, Settles, Attended, ChannelWorks,
          refused, raised, Part.started, balance, settles, increments]
  cases l with
  | wrapper =>
    cases hoffload : self.offload
    all_goals
      simp [Part.code, onMessage, wrapper, ListenerSetup.Wrapper.of, offloadWrapper,
        internalWrapper, Delivery.method, hoffload, hauto, Settles, Attended, ChannelWorks, refused,
        raised, Part.started, balance, settles, increments, Except.isOk, Except.toBool]
  | work =>
    refine offloaded_worth (fun _ => 1) (fun e he => ?_) hscheduled (fun s hbase => ?_) ?_ ?_
    · refine balance_eq_zero ?_ rfl
      rw [settles, (silent_reads he).1, (silent_reads he).1]
      rfl
    · exact absurd rfl hbase.1.1
    all_goals simp [settled, hauto, balance, settles, increments]
  | scheduled schedule => exact Program.wp_mono (fun _ _ hr => hr.1) _ _ (hscheduled schedule)

/-- A delivery that is settled is counted once. -/
theorem settles_eq (hauto : self.autoAck = false)
    (hs : (handling self d).Reach (answers (Settles self)) s) (hc : s.Complete) :
    s.trace.countP (increments .acked) + s.trace.countP (increments .nacked) = 1 := by
  have hworth := crew_worth (fun _ => 1) (code_settles hauto) hs hc
  have hnone : s.trace.countP (fun _ => false) = 0 := List.countP_eq_zero.mpr (by simp)
  rw [sum_balance, countP_settles, hnone] at hworth
  omega

end

/-! ## Any number of deliveries -/

section

variable {self : Listener} {sys : List (Delivery × Handling)}

theorem sum_eq_zero_iff {f : Delivery × Handling → Nat} :
    (sys.map f).sum = 0 ↔ ∀ p ∈ sys, f p = 0 := by
  rw [List.sum_eq_zero_iff_forall_eq_nat, List.forall_mem_map]

theorem counted_received (hs : (handlings self).Reach (handlingAnswers Attended) sys)
    (hc : ∀ p ∈ sys, p.2.Complete) :
    counted .received sys = (sys.map fun p => p.2.trace.countP refused).sum + sys.length := by
  have heach : sys.map (fun p => p.2.trace.countP (increments .received)) =
      sys.map fun p => p.2.trace.countP refused + 1 :=
    List.map_congr_left fun p hp => received_eq (handling_reach hs hp) (hc p hp)
  rw [counted, heach, List.sum_map_add]
  simp

/-- With every callback taken, and none that a wrapper runs raising, the acks and
nacks account for every delivery. -/
theorem counted_settled (hauto : self.autoAck = false)
    (hs : (handlings self).Reach (handlingAnswers Attended) sys) (hc : ∀ p ∈ sys, p.2.Complete)
    (hworks : ∀ p ∈ sys, ∀ e ∈ p.2.trace, ChannelWorks e)
    (hquiet : ∀ p ∈ sys, ∀ e ∈ p.2.trace,
      refused e = false ∧ (self.offload = false → raised e = false)) :
    counted .acked sys + counted .nacked sys = sys.length := by
  have heach : sys.map (fun p => p.2.trace.countP (increments .acked) +
      p.2.trace.countP (increments .nacked)) = sys.map fun _ => 1 := by
    refine List.map_congr_left fun p hp => ?_
    have hreach := handling_reach hs hp
    refine settles_eq hauto (crew_restrict hreach fun e he => ?_) (hc p hp)
    exact ⟨⟨trace_allowed hreach e he, hworks p hp e he⟩, hquiet p hp e he⟩
  rw [counted, counted, ← List.sum_map_add, heach]
  simp

/-- **The counters account for every delivery** exactly when `submit` took every
callback and, with `offload=False`, no callback raised. -/
theorem counters_account_iff (self : Listener) {sys : List (Delivery × Handling)}
    (hs : (handlings self).Reach (handlingAnswers Attended) sys)
    (hc : ∀ p ∈ sys, p.2.Complete) :
    Accounted self sys ↔ ∀ p ∈ sys, ∀ e ∈ p.2.trace,
      refused e = false ∧ (self.offload = false → raised e = false) := by
  have hreceived := counted_received hs hc
  constructor
  · rintro ⟨hrec, hexc, -⟩ p hp e he
    constructor
    · -- a refused callback is received twice
      have hzero := sum_eq_zero_iff.mp (show (sys.map fun p => p.2.trace.countP refused).sum = 0 by
        omega) p hp
      simpa using List.countP_eq_zero.mp hzero e he
    · -- a wrapper does not count what it catches
      intro hoffload
      have hnone : counted .handlerExceptions sys = 0 := sum_eq_zero_iff.mpr fun p hp =>
        exceptions_eq_zero hoffload (handling_reach hs hp)
      have hzero := sum_eq_zero_iff.mp (hexc.symm.trans hnone) p hp
      simpa using List.countP_eq_zero.mp hzero e he
  · intro hquiet
    have hrefused : (sys.map fun p => p.2.trace.countP refused).sum = 0 :=
      sum_eq_zero_iff.mpr fun p hp => List.countP_eq_zero.mpr fun e he => by
        simp [(hquiet p hp e he).1]
    refine ⟨by omega, ?_, fun hauto hworks => ?_⟩
    · refine congrArg List.sum (List.map_congr_left fun p hp => ?_)
      have hreach := handling_reach hs hp
      cases hoffload : self.offload with
      | true =>
        exact exceptions_eq_raised hoffload hreach (hc p hp) fun e he => (hquiet p hp e he).1
      | false =>
        rw [exceptions_eq_zero hoffload hreach, eq_comm]
        exact List.countP_eq_zero.mpr fun e he => by simp [(hquiet p hp e he).2 hoffload]
    · rw [counted_settled hauto hs hc hworks hquiet]
      omega

end

/-! ## Deliveries that are miscounted -/

/-- Nothing is stopped, the callback ends as given, `submit` as given, and everything
else works. -/
def serving (callback : Except Raised Returned) (submit : Except Raised Unit) : ∀ o, Op.Ans o
  | .submit => submit
  | o => answering callback (.ok ()) (.ok ()) o

/-- At-least-once, without dead-lettering. -/
def plainListener (offload : Bool) : Listener := ⟨⟨[], false⟩, offload⟩

def plainDelivery : Delivery := ⟨0, 1, none, []⟩

/-- One delivery, whose callback and `submit` end as given, handled by the wrapper. -/
def served (offload : Bool) (callback : Except Raised Returned) (submit : Except Raised Unit) :
    List (Delivery × Handling) :=
  [(plainDelivery, handled (plainListener offload) plainDelivery (serving callback submit)
    (List.replicate 10 0))]

theorem served_reach (offload : Bool) (callback : Except Raised Returned)
    {submit : Except Raised Unit} (hsubmit : submit ≠ .error .baseException) :
    (handlings (plainListener offload)).Reach (handlingAnswers Attended)
      (served offload callback submit) := by
  refine handled_reach (fun o => ?_) _
  cases o with
  | submit => exact hsubmit
  | addCallbackThreadsafe => exact fun h => by cases h
  | _ => first | rfl | trivial

/-- A callback that raises, with `offload=False`. -/
def uncountedException : List (Delivery × Handling) := served false (.error .exception) (.ok ())

theorem uncountedException_complete : ∀ p ∈ uncountedException, p.2.Complete := by
  intro p hp
  obtain rfl := List.mem_singleton.mp hp
  exact Crew.complete_of_all (by decide +kernel)

theorem counters_account_iff_uncounted : Accounted (plainListener false) uncountedException ↔
    ∀ p ∈ uncountedException, ∀ e ∈ p.2.trace,
      refused e = false ∧ ((plainListener false).offload = false → raised e = false) :=
  counters_account_iff (plainListener false) (served_reach false _ (by decide))
    uncountedException_complete

/-- A callback that raises is not counted with `offload=False`, and a delivery that
`submit` refuses is received twice. -/
theorem deliveries_miscounted :
    (∃ sys, (handlings (plainListener false)).Reach (handlingAnswers Attended) sys ∧
      (∀ p ∈ sys, p.2.Complete) ∧ sys.length = 1 ∧ counted .handlerExceptions sys = 0 ∧
      (sys.map fun p => p.2.trace.countP raised).sum = 1) ∧
    ∃ sys, (handlings (plainListener true)).Reach (handlingAnswers Attended) sys ∧
      (∀ p ∈ sys, p.2.Complete) ∧ sys.length = 1 ∧ counted .received sys = 2 := by
  constructor
  · exact ⟨uncountedException, served_reach false _ (by decide), uncountedException_complete, rfl,
      by decide +kernel, by decide +kernel⟩
  · refine ⟨served true (.ok .value) (.error .exception), served_reach true _ (by decide),
      fun p hp => ?_, rfl, by decide +kernel⟩
    obtain rfl := List.mem_singleton.mp hp
    exact Crew.complete_of_all (by decide +kernel)

end Listener

end MqAdapters
