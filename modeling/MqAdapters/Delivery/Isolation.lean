import MqAdapters.Delivery.Paths
import MqAdapters.Delivery.Wrappers
import MqAdapters.Listener.Loop

/-!
# A callback that raises, and the deliveries behind it

pika buffers deliveries, and `process_data_events` hands them to the wrapper one by
one: the next is taken when the wrapper has returned, and an exception of the wrapper
leaves `process_data_events`.  Workers and scheduled functions go on by themselves.

* `callbacks_isolated`: unless a callback raises in the mode `auto_ack=True` with
  `offload=False`, no exception gets that far, and every buffered delivery is handed
  to the callback once.
* `escape_loses_delivery`: `_auto_ack_wrapper` lets exceptions bubble, and what is
  behind the failing delivery is not handed out.
-/

namespace MqAdapters

open Python Theory Code

namespace Listener

/-- A buffered delivery, with the way its callback ends and what `submit` answers. -/
structure Buffered where
  delivery : Delivery
  callback : Except Raised Returned
  submit : Except Raised Unit

/-- No stop is requested, the semaphore works, `add_done_callback` returns, and the
operations of the channel succeed. -/
def Undisturbed (b : Buffered) : Call → Prop
  | ⟨.stopMe, r⟩ => r = false
  | ⟨.acquire, r⟩ => r = .ok ()
  | ⟨.release, r⟩ => r = .ok ()
  | ⟨.submit, r⟩ => r = b.submit
  | ⟨.addDoneCallback, r⟩ => r = true
  | ⟨.callback _ _, r⟩ => r = b.callback
  | ⟨.basicPublish _ _ _ _ _, r⟩ => r = .ok ()
  | ⟨.basicAck _ _, r⟩ => r = .ok ()
  | ⟨.basicNack _ _ _, r⟩ => r = .ok ()
  | _ => True

def calls : Call → Bool
  | ⟨.callback _ _, _⟩ => true
  | _ => false

/-- The wrapper of a delivery has returned. -/
def returned (p : Buffered × Handling) : Bool :=
  match p.2.result with
  | some (.ok _) => true
  | _ => false

/-- An exception has left a wrapper, and so `process_data_events`. -/
def escaped (sys : List (Buffered × Handling)) : Bool :=
  sys.any fun p => match p.2.result with
    | some (.error _) => true
    | _ => false

/-- `process_data_events` on a buffer: the next delivery is handed out, or one that
was handed out goes on. -/
def dispatch (self : Listener) (buffer : List Buffered) :
    Machine (List (Buffered × Handling)) (Unit ⊕ (Nat × Nat × (∀ o, Op.Ans o))) where
  init := []
  step sys
    | .inl _ =>
      if sys.all returned then
        (buffer[sys.length]?).map fun b => sys ++ [(b, (handling self b.delivery).init)]
      else none
    | .inr m => (Machine.family fun b : Buffered => handling self b.delivery).step sys (.inr m)

/-- The condition that the calls of every delivery are answered for it. -/
def dispatchAnswers :
    List (Buffered × Handling) → Unit ⊕ (Nat × Nat × (∀ o, Op.Ans o)) → Prop
  | _, .inl _ => True
  | sys, .inr (i, a) => ∀ p, sys[i]? = some p → answers (Undisturbed p.1) p.2 a

/-- What the callback and `submit` raise is caught: an `Exception` is, except by
`_auto_ack_wrapper`, and any exception of the callback is on a worker. -/
structure Catchable (config : Listener) (b : Buffered) : Prop where
  submit : b.submit ≠ .error .baseException
  exception : b.callback = .error .exception → config.autoAck = false ∨ config.offload = true
  baseException : b.callback = .error .baseException → config.offload = true ∧ b.submit = .ok ()

section

variable {self : Listener} {b : Buffered} {s : Handling} {buffer : List Buffered}
  {sys : List (Buffered × Handling)}

/-! ## One delivery -/

/-- `_internal_wrapper` returns, unless the callback raises what `except Exception`
lets through. -/
theorem internalWrapper_returns (self : Listener) (hcallback : b.callback ≠ .error .baseException)
    (h : List Call) :
    (internalWrapper self.toSettings b.delivery.channel b.delivery.method b.delivery.properties
      b.delivery.body).wp (Program.free (Undisturbed b) Part.started)
      (fun _ r => r = .ok ()) h := by
  obtain ⟨d, callback, submit⟩ := b
  cases hauto : self.autoAck <;> rcases callback with (_ | _) | r
  all_goals first
    | exact absurd rfl hcallback
    | simp [internalWrapper, Delivery.method, hauto, Undisturbed, Part.started]

theorem wrapper_returns (hb : Catchable self b) (h : List Call) :
    (Part.wrapper.code self b.delivery).wp (Program.free (Undisturbed b) Part.started)
      (fun _ r => r = .ok ()) h := by
  obtain ⟨hsubmit, hexception, hbase⟩ := hb
  cases hoffload : self.offload with
  | false =>
    have hnone : b.callback ≠ .error .baseException := fun h => by
      simpa [hoffload] using (hbase h).1
    cases hauto : self.autoAck with
    | false =>
      have hinternal := internalWrapper_returns self hnone h
      simpa [Part.code, onMessage, wrapper, ListenerSetup.Wrapper.of, hoffload, hauto]
        using hinternal
    | true =>
      -- `_auto_ack_wrapper` is left with a callback that returns
      rcases hr : b.callback with (_ | _) | r
      · simpa [hoffload, hauto] using hexception hr
      · exact absurd hr hnone
      · simp [Part.code, onMessage, wrapper, ListenerSetup.Wrapper.of, autoAckWrapper, hoffload,
          hauto, Undisturbed, Part.started, hr]
  | true =>
    -- a callback that `submit` refuses is run by the wrapper
    have hinternal : b.submit = .error .exception → ∀ h, (internalWrapper self.toSettings
        b.delivery.channel b.delivery.method b.delivery.properties b.delivery.body).wp
        (Program.free (Undisturbed b) Part.started) (fun _ r => r = .ok ()) h := by
      intro hrefused
      refine internalWrapper_returns self fun h => ?_
      rw [(hbase h).2] at hrefused
      cases hrefused
    rcases hs : b.submit with (_ | _) | r
    · simp [Part.code, onMessage, wrapper, ListenerSetup.Wrapper.of, offloadWrapper, hoffload,
        Undisturbed, Part.started, hs, hinternal hs]
    · exact absurd hs hsubmit
    · simp [Part.code, onMessage, wrapper, ListenerSetup.Wrapper.of, offloadWrapper, hoffload,
        Undisturbed, Part.started, hs]

/-- What of a delivery calls the callback. -/
def callFund : Part → ℤ
  | .wrapper | .work => 1
  | .scheduled _ => 0

def callValue (e : Call) : ℤ := if calls e then 1 else 0

theorem sum_callValue (h : List Call) : (h.map callValue).sum = (h.countP calls : ℤ) := by
  induction h with
  | nil => rfl
  | cons e h ih =>
    rw [List.map_cons, List.sum_cons, ih, List.countP_cons, callValue]
    split <;> push_cast <;> omega

theorem internalWrapper_calls (h : List Call) :
    (internalWrapper self.toSettings b.delivery.channel b.delivery.method b.delivery.properties
      b.delivery.body).wp (Program.free (Undisturbed b) Part.started)
      (fun h' _ => Program.net callValue Part.started callFund h' =
        Program.net callValue Part.started callFund h + 1) h := by
  cases hauto : self.autoAck <;> rcases hr : b.callback with (_ | _) | r
  all_goals
    simp [internalWrapper, Delivery.method, hauto, Undisturbed, Part.started, callValue, calls, hr]

theorem code_calls (hsubmit : b.submit ≠ .error .baseException) (l : Part) :
    (l.code self b.delivery).wp (Program.free (Undisturbed b) Part.started)
      (fun h _ => Program.net callValue Part.started callFund h = callFund l) [] := by
  have hnone : ∀ {e : Call}, calls e = false → callValue e = 0 := fun he => by simp [callValue, he]
  have hscheduled := scheduled_worthless b.delivery (Undisturbed b) callFund
    fun e he => hnone (e := e) (by
      obtain ⟨o, r⟩ := e
      cases o <;> first | rfl | cases he)
  have hinternal : ∀ {h : List Call}, Program.net callValue Part.started callFund h = 0 →
      (internalWrapper self.toSettings b.delivery.channel b.delivery.method b.delivery.properties
        b.delivery.body).wp (Program.free (Undisturbed b) Part.started)
        (fun h _ => Program.net callValue Part.started callFund h = 1) h := fun hnet =>
    Program.wp_mono (fun h' _ hh => by rw [hh, hnet]; rfl) _ _ (internalWrapper_calls _)
  cases l with
  | wrapper =>
    cases hoffload : self.offload with
    | false =>
      cases hauto : self.autoAck with
      | false =>
        simpa [Part.code, onMessage, wrapper, ListenerSetup.Wrapper.of, hoffload, hauto, callFund]
          using hinternal rfl
      | true =>
        rcases hr : b.callback with (_ | _) | r
        all_goals
          simp [Part.code, onMessage, wrapper, ListenerSetup.Wrapper.of, autoAckWrapper, hoffload,
            hauto, Undisturbed, Part.started, callFund, callValue, calls, hr]
    | true =>
      rcases hs : b.submit with (_ | _) | r
      · simp [Part.code, onMessage, wrapper, ListenerSetup.Wrapper.of, offloadWrapper, hoffload,
          Undisturbed, Part.started, callFund, hs]
        exact hinternal (by simp [Part.started, callValue, calls])
      · exact absurd hs hsubmit
      · simp [Part.code, onMessage, wrapper, ListenerSetup.Wrapper.of, offloadWrapper, hoffload,
          Undisturbed, Part.started, callFund, callValue, calls, hs]
  | work =>
    refine offloaded_worth callFund (fun e he => hnone ?_) hscheduled (fun _ _ => rfl) ?_ ?_
    · obtain ⟨o, r⟩ := e
      cases o <;> first | rfl | cases he
    all_goals simp [settled, callValue, calls, callFund]
  | scheduled schedule => exact Program.wp_mono (fun _ _ hr => hr.1) _ _ (hscheduled schedule)

/-- A delivery that is handled to its end has been handed to the callback once. -/
theorem calls_once (hsubmit : b.submit ≠ .error .baseException)
    (hs : (handling self b.delivery).Reach (answers (Undisturbed b)) s) (hc : s.Complete) :
    s.trace.countP calls = 1 := by
  have hworth := crew_worth callFund (code_calls hsubmit) hs hc
  rw [sum_callValue, callFund] at hworth
  omega

/-- No exception leaves the wrapper of a delivery. -/
theorem result_ok (hb : Catchable self b)
    (hs : (handling self b.delivery).Reach (answers (Undisturbed b)) s) {r : Except Raised Unit}
    (hr : s.result = some r) : r = .ok () := by
  have hkept : Kept (Program.free (Undisturbed b) Part.started)
      (fun l _ r => l = .wrapper → r = .ok ()) .wrapper s := by
    refine crew_kept (R := Program.free (Undisturbed b) Part.started) ?_ trivial hs
    intro l h _
    cases l with
    | wrapper => exact Program.wp_mono (fun _ _ hr _ => hr) _ _ (wrapper_returns hb h)
    | work | scheduled =>
      exact Program.wp_trivial (fun _ _ h => by cases h) (fun _ _ => trivial)
        (fun _ _ _ _ => trivial) _ _
  obtain ⟨past, hpost⟩ := hkept.result hs hr
  exact hpost rfl

/-! ## The whole buffer -/

/-- The deliveries are handed out in order, and each is handled as on its own. -/
theorem dispatch_members (hs : (dispatch self buffer).Reach dispatchAnswers sys) :
    sys.map Prod.fst = buffer.take sys.length ∧
      ∀ p ∈ sys, (handling self p.1.delivery).Reach (answers (Undisturbed p.1)) p.2 := by
  suffices sys.map Prod.fst = buffer.take sys.length ∧
      (Machine.family fun b : Buffered => handling self b.delivery).Reach
        (Machine.familyStep fun b => answers (Undisturbed b)) sys from
    ⟨this.1, Machine.family_member this.2⟩
  refine Machine.Path.invariant (P := fun sys => sys.map Prod.fst = buffer.take sys.length ∧
    (Machine.family fun b : Buffered => handling self b.delivery).Reach
      (Machine.familyStep fun b => answers (Undisturbed b)) sys) hs ⟨rfl, Machine.Reach.init⟩ ?_
  rintro sys a sys' ha ⟨horder, hreach⟩ hstep
  cases a with
  | inl u =>
    simp only [dispatch] at hstep
    split at hstep
    · obtain ⟨b, hb, rfl⟩ := Option.map_eq_some_iff.mp hstep
      refine ⟨?_, hreach.snoc (a := .inl b) trivial rfl⟩
      rw [List.map_append, horder, List.length_append, List.length_singleton, List.take_add_one, hb]
      rfl
    · cases hstep
  | inr m =>
    refine ⟨?_, hreach.snoc (a := .inr m) ha hstep⟩
    obtain ⟨p, hp, hmove⟩ := Option.bind_eq_some_iff.mp hstep
    obtain ⟨t, -, rfl⟩ := Option.map_eq_some_iff.mp hmove
    obtain ⟨hi, hget⟩ := List.getElem?_eq_some_iff.mp hp
    rw [List.map_set, List.length_set, ← horder]
    refine List.ext_getElem (by simp) fun j hj hj' => ?_
    rw [List.getElem_set]
    split
    · next hij =>
      subst hij
      simp [hget]
    · rfl

/-- **A callback that raises does not disturb the deliveries behind it**, unless it is
`_auto_ack_wrapper` that calls it: `process_data_events` returns and `run` keeps its
connection, and once nothing is in progress and nothing left to hand out, every
buffered delivery has been handed to the callback once, in order. -/
theorem callbacks_isolated (self : Listener)
    {buffer : List Buffered} (hbuffer : ∀ b ∈ buffer, Catchable self b)
    {sys : List (Buffered × Handling)} (hs : (dispatch self buffer).Reach dispatchAnswers sys) :
    escaped sys = false ∧
    (∀ loop : ListenerLoop, loop.pump false (escaped sys) =
      { loop with loopFailures := 0, pc := .top }) ∧
    ((∀ p ∈ sys, p.2.Complete) → (dispatch self buffer).step sys (.inl ()) = none →
      sys.map Prod.fst = buffer ∧ ∀ p ∈ sys, p.2.trace.countP calls = 1) := by
  obtain ⟨horder, hmembers⟩ := dispatch_members hs
  have hcatch : ∀ p ∈ sys, Catchable self p.1 := fun p hp => by
    refine hbuffer p.1 (List.mem_of_mem_take (i := sys.length) ?_)
    rw [← horder]
    exact List.mem_map_of_mem hp
  have hresult : ∀ p ∈ sys, ∀ r, p.2.result = some r → r = .ok () := fun p hp r hr =>
    result_ok (hcatch p hp) (hmembers p hp) hr
  have hescaped : escaped sys = false := by
    refine List.any_eq_false.mpr fun p hp hraised => ?_
    split at hraised
    · next x hx => cases hresult p hp _ hx
    · cases hraised
  refine ⟨hescaped, fun loop => by rw [hescaped]; rfl, fun hc hnext => ⟨?_, fun p hp => ?_⟩⟩
  · -- every wrapper has returned, so nothing is left in the buffer
    have hall : sys.all returned = true := by
      refine List.all_eq_true.mpr fun p hp => ?_
      obtain ⟨r, hr⟩ := exists_result (hmembers p hp) (hc p hp)
      obtain rfl := hresult p hp r hr
      rw [returned, hr]
    simp only [dispatch, hall, if_true, Option.map_eq_none_iff, List.getElem?_eq_none_iff] at hnext
    rw [horder, List.take_of_length_le hnext]
  · exact calls_once (hcatch p hp).submit (hmembers p hp) (hc p hp)

end

/-! ## An exception that bubbles -/

/-- The next delivery is handed out for `none`, and the wrapper of the `i`-th moves for
`some i`, against fixed answers; what is not enabled is passed over. -/
def deal (self : Listener) (buffer : List Buffered) (ans : ∀ o, Op.Ans o) :
    List (Option Nat) → List (Buffered × Handling) → List (Buffered × Handling)
  | [], sys => sys
  | a :: as, sys =>
    let action := match a with
      | none => .inl ()
      | some i => .inr (i, 0, ans)
    deal self buffer ans as (((dispatch self buffer).step sys action).getD sys)

theorem deal_reach {self : Listener} {buffer : List Buffered} {ans : ∀ o, Op.Ans o}
    (hans : ∀ b ∈ buffer, ∀ o, Undisturbed b ⟨o, ans o⟩) (as : List (Option Nat)) :
    ∀ {sys : List (Buffered × Handling)}, (dispatch self buffer).Reach dispatchAnswers sys →
      (dispatch self buffer).Reach dispatchAnswers (deal self buffer ans as sys) := by
  induction as with
  | nil => exact fun hs => hs
  | cons a as ih =>
    intro sys hs
    refine ih ?_
    cases a with
    | none =>
      rcases ht : (dispatch self buffer).step sys (.inl ()) with _ | t
      · exact hs
      · exact hs.snoc (a := .inl ()) trivial ht
    | some i =>
      rcases ht : (dispatch self buffer).step sys (.inr (i, 0, ans)) with _ | t
      · exact hs
      · refine hs.snoc (a := .inr (i, 0, ans)) (fun p hp e he => ?_) ht
        have hmem : p.1 ∈ buffer := by
          refine List.mem_of_mem_take (i := sys.length) ?_
          rw [← (dispatch_members hs).1]
          exact List.mem_map_of_mem (List.mem_of_getElem? hp)
        obtain ⟨t, -, ht⟩ := Option.bind_eq_some_iff.mp he
        rcases t with ⟨l, past, _ | _ | ⟨o, k⟩⟩
        · cases ht
        · cases ht
        · rw [← Option.some.inj ht]
          exact hans p.1 hmem o

/-- Two deliveries whose callbacks raise. -/
def failingBuffer : List Buffered :=
  [⟨⟨0, 1, none, []⟩, .error .exception, .ok ()⟩, ⟨⟨0, 2, none, []⟩, .error .exception, .ok ()⟩]

/-- The callback raises, and everything else works. -/
abbrev failing : ∀ o, Op.Ans o := answering (.error .exception) (.ok ()) (.ok ())

theorem failing_undisturbed : ∀ b ∈ failingBuffer, ∀ o, Undisturbed b ⟨o, failing o⟩ := by
  intro b hb o
  rcases List.mem_cons.mp hb with rfl | hb
  · cases o <;> first | rfl | trivial
  · obtain rfl := List.mem_singleton.mp hb
    cases o <;> first | rfl | trivial

/-- The buffer in a mode with `offload=False`, dealt to the end. -/
def dealt (autoAck : Bool) : List (Buffered × Handling) :=
  deal ⟨⟨[], autoAck⟩, false⟩ failingBuffer failing
    (none :: List.replicate 5 (some 0) ++ none :: List.replicate 5 (some 1)) []

theorem dealt_reach (autoAck : Bool) :
    (dispatch ⟨⟨[], autoAck⟩, false⟩ failingBuffer).Reach dispatchAnswers (dealt autoAck) :=
  deal_reach failing_undisturbed _ Machine.Reach.init

theorem callbacks_isolated_internal :
    escaped (dealt false) = false ∧
    (∀ loop : ListenerLoop, loop.pump false (escaped (dealt false)) =
      { loop with loopFailures := 0, pc := .top }) ∧
    ((∀ p ∈ dealt false, p.2.Complete) →
      (dispatch ⟨⟨[], false⟩, false⟩ failingBuffer).step (dealt false) (.inl ()) = none →
      (dealt false).map Prod.fst = failingBuffer ∧
        ∀ p ∈ dealt false, p.2.trace.countP calls = 1) :=
  callbacks_isolated ⟨⟨[], false⟩, false⟩
    (fun b hb => by
      rcases List.mem_cons.mp hb with rfl | hb
      · exact ⟨fun h => (by cases h), fun _ => .inl rfl, fun h => (by cases h)⟩
      · obtain rfl := List.mem_singleton.mp hb
        exact ⟨fun h => (by cases h), fun _ => .inl rfl, fun h => (by cases h)⟩)
    (dealt_reach false)

/-- With `auto_ack=True` and `offload=False` the exception leaves
`process_data_events`, and the second delivery is not handed out. -/
theorem escape_loses_delivery : ∃ sys,
    (dispatch ⟨⟨[], true⟩, false⟩ failingBuffer).Reach dispatchAnswers sys ∧
    (∀ p ∈ sys, p.2.Complete) ∧
    (dispatch ⟨⟨[], true⟩, false⟩ failingBuffer).step sys (.inl ()) = none ∧
    escaped sys = true ∧ sys.length = 1 ∧ failingBuffer.length = 2 ∧
    (ListenerLoop.initial.pump false (escaped sys)).pc = .handler .inner := by
  refine ⟨dealt true, dealt_reach true, fun p hp => ?_, rfl, rfl, rfl, rfl, rfl⟩
  obtain rfl := List.mem_singleton.mp hp
  exact Crew.complete_of_all (by decide +kernel)

end Listener

end MqAdapters
