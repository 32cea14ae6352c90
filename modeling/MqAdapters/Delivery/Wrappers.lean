import MqAdapters.Delivery.Sync

/-!
# The wrapper of each mode

`_setup_channel_and_consumer` registers one of three wrappers, by `offload` and
`auto_ack`.  `handling self d` is everything that a delivery sets going in the mode
of `self`: the wrapper, the callback that `submit` schedules with its `_on_done`,
whichever thread runs that, and the function that `add_callback_threadsafe` queues.
`handlings self` is any number of deliveries, each arriving at any time and
interleaved with all others.
-/

namespace MqAdapters

open Python Theory Code

namespace Listener

/-- The programs that handling a delivery consists of. -/
inductive Part
  | wrapper
  | work
  | scheduled (schedule : Schedule)

def Part.code (self : Listener) (d : Delivery) : Part → Code Unit
  | .wrapper => self.onMessage d.channel d.method d.properties d.body
  | .work => offloaded self.toSettings d.channel d.method d.properties d.body
  | .scheduled schedule => schedule.run d.channel d.properties d.body

/-- The program that a call starts when it is accepted. -/
def Part.started : Call → List Part
  | ⟨.submit, r⟩ => match r with
    | .ok _ => [.work]
    | .error _ => []
  | ⟨.addCallbackThreadsafe schedule, r⟩ => match r with
    | .ok _ => [.scheduled schedule]
    | .error _ => []
  | _ => []

/-- A delivery under way. -/
abbrev Handling := Crew Op Op.Ans Raised Part

/-- Everything that handling `d` sets going. -/
def handling (self : Listener) (d : Delivery) : Machine Handling (Nat × (∀ o, Op.Ans o)) :=
  crew (Part.code self d) Part.started .wrapper

/-- Any number of deliveries. -/
def handlings (self : Listener) :
    Machine (List (Delivery × Handling)) (Delivery ⊕ (Nat × Nat × (∀ o, Op.Ans o))) :=
  Machine.family (handling self)

/-- The condition that every call is answered as `allowed` says. -/
def handlingAnswers (allowed : Call → Prop) :
    List (Delivery × Handling) → Delivery ⊕ (Nat × Nat × (∀ o, Op.Ans o)) → Prop :=
  Machine.familyStep fun _ => answers allowed

theorem handling_reach {self : Listener} {allowed : Call → Prop}
    {sys : List (Delivery × Handling)}
    (hs : (handlings self).Reach (handlingAnswers allowed) sys) {p : Delivery × Handling}
    (hp : p ∈ sys) : (handling self p.1).Reach (answers allowed) p.2 := by
  have h := Machine.family_member hs p hp
  exact h

/-- A delivery handled against fixed answers. -/
def handled (self : Listener) (d : Delivery) (ans : ∀ o, Op.Ans o) (is : List Nat) : Handling :=
  play (Part.code self d) Part.started ans (handling self d).init is

theorem handled_reach {self : Listener} {d : Delivery} {allowed : Call → Prop}
    {ans : ∀ o, Op.Ans o} (hall : ∀ o, allowed ⟨o, ans o⟩) (is : List Nat) :
    (handlings self).Reach (handlingAnswers allowed) [(d, handled self d ans is)] := by
  have h := Machine.family_of_member (F := handling self) (c := fun _ => answers allowed)
    (play_reach hall is Machine.Reach.init :
      (handling self d).Reach (answers allowed) (handled self d ans is))
  exact h

/-! ## What a delivery is worth -/

/-- The calls of a scheduled function. -/
def settling : Op → Bool
  | .basicPublish .. | .basicAck .. | .basicNack .. | .inc .acked | .inc .nacked => true
  | _ => false

/-- The calls of `_on_done` itself, apart from the counter and what it schedules. -/
def silent : Op → Bool
  | .connectionIsOpen | .addCallbackThreadsafe _ | .release => true
  | _ => false

section

variable {self : Settings} {d : Delivery} {allowed : Call → Prop} {value : Call → ℤ}
  {fund : Part → ℤ} {h : List Call}

/-- A scheduled function settles, and does nothing else. -/
theorem scheduled_worthless (d : Delivery) (allowed : Call → Prop) (fund : Part → ℤ)
    (hvalue : ∀ e : Call, settling e.op = true → value e = 0) (s : Schedule) :
    (s.run d.channel d.properties d.body).wp (Program.free allowed Part.started)
      (fun h r => Program.net value Part.started fund h = 0 ∧ r ≠ .error .exception) [] := by
  have hpublish : ∀ ch exchange key body p r,
      value ⟨.basicPublish ch exchange key body p, r⟩ = 0 := fun _ _ _ _ _ _ => hvalue _ rfl
  have hack : ∀ ch tag r, value ⟨.basicAck ch tag, r⟩ = 0 := fun _ _ _ => hvalue _ rfl
  have hnack : ∀ ch tag requeue r, value ⟨.basicNack ch tag requeue, r⟩ = 0 :=
    fun _ _ _ _ => hvalue _ rfl
  have hacked : ∀ r, value ⟨.inc .acked, r⟩ = 0 := fun _ => hvalue _ rfl
  have hnacked : ∀ r, value ⟨.inc .nacked, r⟩ = 0 := fun _ => hvalue _ rfl
  cases s with
  | ack tag => simp [Schedule.run, ackOffloaded, Part.started, hack, hacked]
  | fail tag cfg attempt =>
    rcases hq : cfg.poisonQueue attempt with _ | q
    all_goals
      simp [Schedule.run, handleFail, hq, Program.wp_ite, Part.started, hpublish, hack, hnack,
        hacked, hnacked]

/-- What `_on_done` counts and schedules for a callback that ended with `exc`. -/
def settled (self : Settings) (d : Delivery) (value : Call → ℤ) (fund : Part → ℤ)
    (exc : Option Raised) : ℤ :=
  (if exc.isSome then value ⟨.inc .handlerExceptions, ()⟩ else 0) +
    if self.autoAck then 0
    else fund (.scheduled (.of self d.properties d.deliveryTag exc))

/-- `_on_done` is worth that: either the function is started, or its body is run in
place, which raises no `Exception` and so is not run again. -/
theorem onDone_worth (hvalue : ∀ e : Call, silent e.op = true → value e = 0)
    (hs : ∀ s : Schedule, (s.run d.channel d.properties d.body).wp
      (Program.free allowed Part.started)
      (fun h r => Program.net value Part.started fund h = fund (.scheduled s) ∧
        r ≠ .error .exception) [])
    (hbase : ∀ s, allowed ⟨.addCallbackThreadsafe s, .error .baseException⟩ →
      fund (.scheduled s) = 0)
    (exc : Option Raised) (h : List Call) :
    (onDone self d.channel d.method d.properties d.body exc).wp
      (Program.free allowed Part.started)
      (fun h' _ => Program.net value Part.started fund h' =
        Program.net value Part.started fund h + settled self d value fund exc) h := by
  set s := Schedule.of self d.properties d.deliveryTag exc with hsched
  have hrun : ∀ {h' : List Call} {Q}, (∀ h'' r,
      Program.net value Part.started fund h'' = fund (.scheduled s) → r ≠ .error .exception →
        Q (h' ++ h'') r) →
      (s.run d.channel d.properties d.body).wp (Program.free allowed Part.started) Q h' := by
    intro h' Q hQ
    rw [← List.append_nil h', Program.wp_free_append]
    exact Program.wp_mono (fun h'' r hr => hQ h'' r hr.1 hr.2) _ _ (hs s)
  have hopen : ∀ r, value ⟨.connectionIsOpen, r⟩ = 0 := fun _ => hvalue _ rfl
  have hadd : ∀ r, value ⟨.addCallbackThreadsafe s, r⟩ = 0 := fun _ => hvalue _ rfl
  have hrelease : ∀ r, value ⟨.release, r⟩ = 0 := fun _ => hvalue _ rfl
  cases hauto : self.autoAck <;> rcases exc with _ | x
  all_goals
    simp [onDone, settled, Delivery.method, Program.wp_ite, ← hsched, hauto, hopen, hadd, hrelease,
      Part.started, Int.add_assoc]
  all_goals
    intros
    refine ⟨fun _ => hrun ?_, fun _ => ⟨fun _ => hrun ?_, fun hb => by simp [hbase s hb]⟩⟩
  all_goals
    rintro h'' ((_ | _) | r) hnet hr
    · exact absurd rfl hr
    all_goals simp [hopen, hadd, Part.started, hnet]

/-- A submitted callback is worth what it is itself, and what `_on_done` is for the way the
callback ended. -/
theorem offloaded_worth (fund : Part → ℤ)
    (hvalue : ∀ e : Call, silent e.op = true → value e = 0)
    (hs : ∀ s : Schedule, (s.run d.channel d.properties d.body).wp
      (Program.free allowed Part.started)
      (fun h r => Program.net value Part.started fund h = fund (.scheduled s) ∧
        r ≠ .error .exception) [])
    (hbase : ∀ s, allowed ⟨.addCallbackThreadsafe s, .error .baseException⟩ →
      fund (.scheduled s) = 0)
    (hok : ∀ r, allowed ⟨.callback d.properties d.body, .ok r⟩ →
      value ⟨.callback d.properties d.body, .ok r⟩ + settled self d value fund none = fund .work)
    (herror : ∀ x, allowed ⟨.callback d.properties d.body, .error x⟩ →
      value ⟨.callback d.properties d.body, .error x⟩ + settled self d value fund (some x) =
        fund .work) :
    (offloaded self d.channel d.method d.properties d.body).wp (Program.free allowed Part.started)
      (fun h _ => Program.net value Part.started fund h = fund .work) [] := by
  have hdone : ∀ (r : Except Raised Returned) (exc : Option Raised),
      value ⟨.callback d.properties d.body, r⟩ + settled self d value fund exc = fund .work →
      (onDone self d.channel d.method d.properties d.body exc).wp
        (Program.free allowed Part.started)
        (fun h _ => Program.net value Part.started fund h = fund .work)
        [⟨.callback d.properties d.body, r⟩] := by
    intro r exc heq
    refine Program.wp_mono (fun h _ hh => hh.trans ?_) _ _ (onDone_worth hvalue hs hbase exc _)
    simpa [Part.started] using heq
  simp only [offloaded, callback, Program.bind_eq, Program.wp_bind, Program.wp_attempt,
    Program.wp_ask]
  refine ⟨trivial, fun r hr => ⟨fun _ _ => trivial, ?_⟩⟩
  cases r with
  | ok r => exact hdone _ _ (hok r hr)
  | error x => exact hdone _ _ (herror x hr)

end

end Listener

end MqAdapters
